import Mathlib
import Bytecode.Proofs.Generate.Literals
import Bytecode.Proofs.Heap.Bookkeeping
import Bytecode.Proofs.Semantics.Stepping

/-!
# Literals at run time

An integer that is small enough is an operand of the instruction that pushes it, with or without a
sign; zero and one have instructions of their own among the doubles; every other literal is a
constant of the pool, whose index remains valid as the pool grows. Whichever it is, the instruction
pushes what was written, bit for bit, `execute_literal`.
-/

namespace Bytecode

open Machine

/-- The value of a literal. A string is allocated each time. -/
def Constant.value : Constant → MachineM Value
  | .int value => pure (.ofInt value)
  | .double value => pure (.ofDouble value)
  | .string text => newString text

section

variable {m : Machine} {pc : Nat} {operand : Option UInt16}

/-- A constant is looked up in the pool by the operand that stands for it. -/
theorem pushConstant_of_denotes {c : Constant} (select : Constant → Option (MachineM Value))
    (denotes : (Operand.constant c).Denotes m.exe.constants operand)
    (selected : select c = some c.value) :
  pushConstant (operand.getD 0).toNat select m = (c.value >>= push) m
  := by
  obtain ⟨index, rfl, found⟩ := denotes
  have looked : (m.exe.constants[((some index).getD 0).toNat]?).bind select = some c.value := by
    rw [Option.getD_some, found]
    exact selected
  unfold pushConstant
  rw [bind_of_ok (get_eq m), looked]

/-- An integer is pushed in one of three ways. -/
theorem execute_int {value : Int64}
    (denotes : (Directive.int value).operand.Denotes m.exe.constants operand) :
  execute ⟨pc, (Directive.int value).op, operand⟩ m
    = (push (.ofInt value) >>= fun _ => pure none) m
  := by
  unfold Directive.int at denotes ⊢
  -- An operand of one byte is read without a sign, one of two bytes with its sign.
  split at denotes
  · next byte =>
      obtain ⟨rfl, -, -⟩ := denotes
      have number : (operandWord value.toInt).toNat = value.toInt.toNat := by
        have encoded := toNat_operandWord value.toInt
        omega
      rw [if_pos byte, ← Value.ofNat_toNat_toInt byte.1, ← number]
      rfl
  · next noByte =>
      split at denotes
      · next word =>
          obtain ⟨rfl, -, -⟩ := denotes
          rw [if_neg noByte, if_pos word]
          nth_rewrite 3 [← toInt64_operandWord word.1 word.2]
          rfl
      · next large =>
          have pushed := pushConstant_of_denotes literalInt? denotes rfl
          rw [if_neg noByte, if_neg large]
          exact bind_congr_at pushed _

theorem execute_double {value : Double}
    (denotes : (Directive.double value).operand.Denotes m.exe.constants operand) :
  execute ⟨pc, (Directive.double value).op, operand⟩ m
    = (push (.ofDouble value) >>= fun _ => pure none) m
  := by
  unfold Directive.double at denotes ⊢
  split at denotes
  · next zero =>
      rw [if_pos zero, zero]
      rfl
  · next noZero =>
      split at denotes
      · next one =>
          rw [if_neg noZero, if_pos one, one]
          rfl
      · next other =>
          have pushed := pushConstant_of_denotes literalDouble? denotes rfl
          rw [if_neg noZero, if_neg other]
          exact bind_congr_at pushed _

/-- The instruction for a literal pushes its value. -/
theorem execute_literal {c : Constant}
    (denotes : c.directive.operand.Denotes m.exe.constants operand) :
  execute ⟨pc, c.directive.op, operand⟩ m = ((c.value >>= push) >>= fun _ => pure none) m
  := by
  cases c with
  | int value => exact execute_int denotes
  | double value => exact execute_double denotes
  | string text => exact bind_congr_at (pushConstant_of_denotes literalString? denotes rfl) _

end

/-! ### What is pushed -/

/-- There is a handle for one more object. -/
structure Heap.HasRoom (h : Heap) : Prop where
  wellFormed : h.WellFormed
  small : h.slots.size < 2 ^ 32

theorem Heap.HasRoom.places {h : Heap} (room : h.HasRoom) (object : Object) :
  h.Places object (h.alloc object).1 (h.alloc object).2
  := by
  apply room.wellFormed.places_alloc
  have small := room.small
  rw [slots_size_alloc]
  split
  all_goals omega

/-- The literal is this value: an integer or a double with exactly those bits, for which the heap is
not needed, or a string with exactly that text, which was not in the heap before. -/
def Constant.Makes (c : Constant) (h : Heap) (v : Value) (h' : Heap) : Prop :=
  match c with
  | .int value => v = .word value.toUInt64 ∧ h' = h
  | .double value => v = .word value.bits ∧ h' = h
  | .string text => ∃ handle, v = .ref handle ∧ (h.HasRoom → h.Places (.string text) handle h')

/-- The instruction pushes the literal on any machine whose stack has room for it, and changes
nothing else. -/
def Executable.Pushes (exe : Executable) (i : Instruction) (c : Constant) : Prop :=
  ∀ m : Machine, m.exe = exe → m.stack.sp ≤ m.stack.cells.size →
    ∀ s₁, Stack.reserve 1 m.stack = .ok () s₁ →
      ∃ v s h, execute i m = .ok none { m.withHeap h with stack := s }
        ∧ Stack.Pushed (.value v) m.stack s ∧ c.Makes m.heap v h

theorem Constant.exists_makes (c : Constant) (m : Machine) :
  ∃ v h, c.value m = .ok v (m.withHeap h) ∧ c.Makes m.heap v h
  := by
  cases c with
  | int value | double value => exact ⟨_, m.heap, rfl, rfl, rfl⟩
  | string text =>
    have made : newString text m = .ok (.ref (m.heap.alloc (.string text)).1)
        (m.withHeap (m.heap.alloc (.string text)).2) := modifyHeap_eq _ m
    exact ⟨_, _, made, _, rfl, fun room => room.places _⟩

theorem pushes_literal {exe : Executable} {c : Constant} {pc : Nat} {operand : Option UInt16}
    (denotes : c.directive.operand.Denotes exe.constants operand) :
  exe.Pushes ⟨pc, c.directive.op, operand⟩ c
  := by
  rintro m rfl fits s₁ reserved
  obtain ⟨v, h, made, makes⟩ := c.exists_makes m
  obtain ⟨s, pushed⟩ := Stack.exists_pushCell fits (.value v) reserved
  have run : push v (m.withHeap h) = .ok () { m.withHeap h with stack := s } :=
    onStack_of_ok pushed
  refine ⟨v, s, h, ?_, Stack.pushCell_eq_ok pushed, makes⟩
  rw [execute_literal denotes, bind_assoc, bind_of_ok made, bind_of_ok run]
  rfl

/-- Every integer, double and string of a body has an instruction in its code that pushes exactly
what was written, and the constant pool has no entry twice. -/
theorem literals_of_compile {p : Program} {exe : Executable} (compiled : compile p = .ok exe) :
  (∀ current, (p.spots current).filterMap Spot.literal? = p.literals current
      ∧ ∀ spot ∈ p.spots current, ∀ c, spot.literal? = some c →
        ∃ block i, exe.code? current = some block ∧ fetch block.code spot.start = .ok i
          ∧ exe.Pushes i c)
    ∧ exe.constants.toList.Nodup
  := by
  refine ⟨fun current => ⟨literals_spots_of_compile compiled current, ?_⟩,
    nodup_constants_of_compile compiled⟩
  intro spot listed c isLiteral
  obtain ⟨block, operand, code, fetched, denotes⟩ :=
    (compile_eq_ok compiled).fetch_of_literal? listed isLiteral
  exact ⟨block, _, code, fetched, pushes_literal denotes⟩

/-- A negative zero, and an integer too large for an operand, which is written twice. The string of
the function comes first in the pool. -/
def shelf : Program where
  globals := [⟨"x", .double⟩, ⟨"n", .int⟩]
  functions := [{
    name := "f"
    returnType := .string
    params := []
    body := some [.ret {} (some (.ofString "a"))] }]
  statements := [
    .expression {} (.assignment (.readGlobal 0 .double) (.ofDouble ⟨0x8000000000000000⟩)),
    .expression {} (.assignment (.readGlobal 1 .int)
      (.operation (.arith .add) (.ofInt 40000) (.ofInt 40000)))]

def shelfExecutable : Executable where
  constants := #[.string "a", .double ⟨0x8000000000000000⟩, .int 40000]
  globals := #[⟨"x", .double⟩, ⟨"n", .int⟩]
  functions := #[{
    name := "f"
    package := ""
    class_ := none
    returnType := .string
    params := []
    locals := []
    code := some ⟨#[6, 0, 0, 79], #[⟨0, 0, 4⟩]⟩ }]
  topLevel := ⟨#[5, 0, 1, 18, 0, 0, 2, 0, 2, 2, 0, 2, 32, 17, 0, 1], #[⟨0, 0, 16⟩]⟩

def shelfMachine : Machine := ofStack shelfExecutable {} 0 (Stack.new 1 8)

/-- The first instruction of the top level pushes the negative zero, and that of the function a new
string. -/
theorem literals_shelf :
  compile shelf = .ok shelfExecutable
    ∧ shelf.literals none = [.double ⟨0x8000000000000000⟩, .int 40000, .int 40000]
    ∧ (∃ i s, fetch shelfExecutable.topLevel.code 0 = .ok i
      ∧ execute i shelfMachine = .ok none { shelfMachine with stack := s }
      ∧ s.cells[0]? = some (.value (.word 0x8000000000000000)))
    ∧ ∃ i s h handle, fetch #[6, 0, 0, 79] 0 = .ok i
      ∧ execute i shelfMachine = .ok none { shelfMachine.withHeap h with stack := s }
      ∧ s.cells[0]? = some (.value (.ref handle)) ∧ h.get? handle = some (.string "a")
  := by
  have compiled : compile shelf = .ok shelfExecutable := by cbv
  have onStack : Stack.reserve 1 shelfMachine.stack = .ok () shelfMachine.stack := rfl
  have inHeap : shelfMachine.heap.HasRoom := ⟨.new _ _ _, by decide⟩
  have number : ⟨.expr (.ofDouble ⟨0x8000000000000000⟩), ⟨0, .void, 0⟩, 0⟩ ∈ shelf.spots none :=
    List.mem_cons_of_mem _ List.mem_cons_self
  have text : ⟨.expr (.ofString "a"), ⟨0, .string, 0⟩, 0⟩ ∈ shelf.spots (some 0) :=
    List.mem_cons_of_mem _ List.mem_cons_self
  have literals := (literals_of_compile compiled).1
  obtain ⟨block, i, code, fetched, pushes⟩ := (literals none).2 _ number _ rfl
  obtain ⟨block', i', code', fetched', pushes'⟩ := (literals (some 0)).2 _ text _ rfl
  cases code
  cases code'
  obtain ⟨v, s, h, run, pushed, rfl, rfl⟩ := pushes shelfMachine rfl (Nat.zero_le _) _ onStack
  obtain ⟨v', s', h', run', pushed', handle, rfl, places⟩ :=
    pushes' shelfMachine rfl (Nat.zero_le _) _ onStack
  exact ⟨compiled, rfl, ⟨i, s, fetched, run, pushed.top⟩,
    i', s', h', handle, fetched', run', pushed'.top, (places inHeap).live⟩

end Bytecode
