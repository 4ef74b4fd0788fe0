import Mathlib
import Bytecode.Proofs.Generate.Balance
import Bytecode.Proofs.Machine.Laws

/-!
# What instructions do to the stack

An action shifts the stack if it takes some cells off its top and puts others in their place. Two
shifts in a row are one: what the first one puts is there for the second one to take, and only what
is missing is taken from below. So the shift of an instruction is computed from those of its parts.

For an instruction that has been completed the stack pointer has changed by the effect that the
table of opcodes gives, and by what the callee decides for a call. The cells below those that it
consumed are as they were, except for the slot that a store addresses.
-/

namespace Bytecode

variable {m m' : Machine} {index : Nat} {f : Function}

open Machine

/-! ### Shifts -/

/-- So many cells were taken off the stack and so many put in their place; those below are as they
were. -/
structure Stack.Shifted (takes leaves : Nat) (s s' : Stack) : Prop where
  enough : takes ≤ s.sp
  sp_eq : s'.sp = s.sp - takes + leaves
  below : ∀ k, k < s.sp - takes → s'.cells[k]? = s.cells[k]?

namespace Stack.Shifted

variable {takes leaves takes' leaves' : Nat} {s s' s'' : Stack}

theorem refl (s : Stack) :
  s.Shifted 0 0 s
  := ⟨Nat.zero_le _, rfl, fun _ _ => rfl⟩

theorem trans (first : s.Shifted takes leaves s') (second : s'.Shifted takes' leaves' s'') :
  s.Shifted (takes + (takes' - leaves)) (leaves - takes' + leaves') s''
  := by
  obtain ⟨enough, sp, below⟩ := first
  obtain ⟨enough', sp', below'⟩ := second
  refine ⟨by omega, by omega, ?_⟩
  intro k under
  rw [below' k (by omega), below k (by omega)]

theorem lowered {count : Nat} (enough : count ≤ s.sp) :
  s.Shifted count 0 (s.lowered count)
  := ⟨enough, rfl, fun _ _ => rfl⟩

/-- Cells that are added do not touch those below, if these lie within the array. -/
theorem extended {added : List Cell} (extended : s.Extended added s')
    (fits : s.sp ≤ s.cells.size) :
  s.Shifted 0 added.length s'
  := ⟨Nat.zero_le _, extended.sp_eq, fun k under => extended.below k under (by omega)⟩

end Stack.Shifted

/-- Whenever the action succeeds, it has shifted the stack. -/
def Shifts {α : Type} (takes leaves : Nat) (x : MachineM α) : Prop :=
  ∀ m a m', x m = .ok a m' → m.stack.Shifted takes leaves m'.stack

theorem Stack.Shifted.pushCell {s s' : Stack} {cell : Cell}
    (run : Stack.pushCell cell s = .ok () s') :
  s.Shifted 0 1 s'
  := .extended (Stack.pushCell_eq_ok run).extended (Stack.fits_of_pushCell run)

namespace Shifts

variable {α β : Type} {takes leaves takes' leaves' : Nat}

/-- An action that leaves the stack alone. -/
theorem of_same {x : MachineM α} (same : ∀ m a m', x m = .ok a m' → m'.stack = m.stack) :
  Shifts 0 0 x
  := by
  intro m a m' run
  rw [same m a m' run]
  exact .refl _

theorem pure (a : α) :
  Shifts 0 0 (Pure.pure a : MachineM α)
  := of_same fun _ _ _ run => by rw [(pure_eq_ok.1 run).2]

theorem offStack {x : MachineM α} (off : OffStack x) :
  Shifts 0 0 x
  := by
  apply of_same
  intro m a m' run
  have same := off.stack m
  rwa [run] at same

theorem bind {x : MachineM α} {f : α → MachineM β} (first : Shifts takes leaves x)
    (second : ∀ a, Shifts takes' leaves' (f a)) :
  Shifts (takes + (takes' - leaves)) (leaves - takes' + leaves') (x >>= f)
  := by
  intro m b m' run
  obtain ⟨a, m₁, run₁, run₂⟩ := bind_eq_ok.1 run
  exact (first m a m₁ run₁).trans (second a m₁ b m' run₂)

/-- The numbers of a shift that has been put together, as they come out. -/
theorem total {x : MachineM α} (shifts : Shifts takes leaves x) (taken : takes = takes')
    (left : leaves = leaves') :
  Shifts takes' leaves' x
  := by
  rw [← taken, ← left]
  exact shifts

theorem onStack {action : StackM α}
    (each : ∀ s a s', action s = .ok a s' → s.Shifted takes leaves s') :
  Shifts takes leaves (Machine.onStack action)
  := by
  intro m a m' run
  obtain ⟨s, acted, rfl⟩ := onStack_eq_ok run
  exact each _ _ _ acted

theorem push (v : Value) :
  Shifts 0 1 (Machine.push v)
  := onStack fun _ _ _ run => .pushCell run

theorem pop :
  Shifts 1 0 Machine.pop
  := by
  apply onStack
  intro s v s' run
  obtain ⟨enough, rfl, -⟩ := Stack.pop_eq_ok run
  exact .lowered enough

theorem shrink (count : Nat) :
  Shifts count 0 (Machine.onStack (Stack.shrink count))
  := by
  apply onStack
  intro s _ s' run
  obtain ⟨enough, rfl⟩ := Stack.shrink_eq_ok run
  exact .lowered enough

theorem top (count : Nat) :
  Shifts 0 0 (Machine.onStack (Stack.top count))
  := by
  apply onStack
  intro s vs s' run
  obtain ⟨-, rfl⟩ := Stack.top_eq_ok run
  exact .refl _

theorem get (index : Nat) :
  Shifts 0 0 (Machine.onStack (Stack.get index))
  := by
  apply onStack
  intro s v s' run
  obtain ⟨-, rfl⟩ := Stack.get_eq_ok run
  exact .refl _

theorem peek (depth : Nat) :
  Shifts 0 0 (Machine.peek depth)
  := by
  apply onStack
  intro s v s' run
  obtain ⟨index, s₁, run₁, run₂⟩ := bind_eq_ok.1 run
  obtain ⟨-, -, rfl⟩ := Stack.fromTop_eq_ok run₁
  obtain ⟨-, rfl⟩ := Stack.get_eq_ok run₂
  exact .refl _

/-- The cell on top is replaced by another one. -/
theorem replaceTop (v : Value) :
  Shifts 1 1 (Machine.replaceTop v)
  := by
  apply onStack
  intro s _ s' run
  obtain ⟨index, s₁, run₁, run₂⟩ := bind_eq_ok.1 run
  obtain ⟨enough, rfl, rfl⟩ := Stack.fromTop_eq_ok run₁
  obtain ⟨-, rfl⟩ := Stack.set_eq_ok run₂
  refine ⟨enough, by simp only; omega, ?_⟩
  intro k under
  exact Array.getElem?_setIfInBounds_ne (by omega)

theorem setPc (pc : Nat) :
  Shifts 0 0 (Machine.setPc pc)
  := by
  apply of_same
  intro m _ m' run
  cases run
  rfl

theorem unary {f : Value → MachineM Value} (each : ∀ v, OffStack (f v)) :
  Shifts 1 1 (Machine.unary f)
  := ((peek 0).bind fun v => (offStack (each v)).bind fun w => replaceTop w).total rfl rfl

theorem binary {f : Value → Value → MachineM Value} (each : ∀ v w, OffStack (f v w)) :
  Shifts 2 1 (Machine.binary f)
  := (pop.bind fun rhs => (peek 0).bind fun lhs => (offStack (each lhs rhs)).bind fun v =>
    replaceTop v).total rfl rfl

theorem pushConstant {select : Constant → Option (MachineM Value)}
    (selection : Instruction.Selection select) (index : Nat) :
  Shifts 0 1 (Machine.pushConstant index select)
  := by
  rw [pushConstant_eq]
  exact ((offStack (Instruction.offStack_literal selection index)).bind fun v =>
    push v).total rfl rfl

theorem jumpIf (truth : Bool) (target : Nat) :
  Shifts 1 0 (Machine.jumpIf truth target)
  := by
  have jump (v : Value) :
      Shifts 0 0 (if v.toBool == truth then Machine.setPc target else Pure.pure ()) := by
    split
    · exact setPc target
    · exact pure ()
  exact (pop.bind jump).total rfl rfl

theorem concatenate :
  Shifts 2 1 Machine.concatenate
  := ((peek 0).bind fun rhs => (peek 1).bind fun lhs =>
    (offStack (looks_textOrNull lhs).offStack).bind fun a =>
    (offStack (looks_textOrNull rhs).offStack).bind fun b =>
    (offStack (offStack_newString (a ++ b))).bind fun v =>
    (shrink 2).bind fun _ => push v).total rfl rfl

theorem compareReferences (equal : Bool) :
  Shifts 2 1 (Machine.compareReferences equal)
  := (pop.bind fun rhs => pop.bind fun lhs =>
    push (.ofBool ((lhs.handle? == rhs.handle?) == equal))).total rfl rfl

end Shifts

/-! ### Instructions -/

/-- The cells that an instruction takes off the stack. Operands that it only looks at stay where
they are. -/
def Op.consumes (args : Nat) : Op → Nat
  | .duplicate | .pushMethod | .downCast => 0
  | op => op.takes args

/-- The cells that an instruction puts on the stack. -/
def Op.yields : Op → Nat
  | .duplicate | .pushMethod => 1
  | .downCast => 0
  | op => op.leaves

/-- The effect of an opcode is the difference of what it puts and what it takes. -/
theorem Op.stackEffect_eq_yields {op : Op} (noCall : op ≠ .invoke) (noReturn : op ≠ .ret)
    (noLiteral : ∀ kind, op ≠ .newArrayLiteral kind) (args : Nat) :
  op.stackEffect = op.yields - op.consumes args
  := by
  rw [Op.stackEffect_eq noCall noReturn noLiteral args]
  unfold Op.yields Op.consumes
  split
  all_goals rfl

/-- An instruction that neither calls nor returns nor stores into the frame. -/
theorem shifts_execute {i : Instruction} (noCall : i.op ≠ .invoke) (noReturn : i.op ≠ .ret)
    (noStore : ∀ kind, i.op ≠ .popStack kind) :
  Shifts (i.op.consumes i.number) i.op.yields (execute i)
  := by
  have ends {takes leaves : Nat} {x : MachineM Unit} (shifts : Shifts takes leaves x) :
      Shifts takes leaves (x >>= fun _ => (Pure.pure none : MachineM (Option Value))) :=
    (shifts.bind fun _ => .pure none).total (by omega) (by omega)
  have push (v : Value) :
      Shifts 0 1 (push v >>= fun _ => (Pure.pure none : MachineM (Option Value))) := ends (.push v)
  obtain ⟨pc, op, operand⟩ := i
  cases op with
  | pushInt1Byte | pushInt2Byte | pushDouble0 | pushDouble1 | pushNull | pushFunction =>
    exact push _
  | pushInt => exact ends (.pushConstant .int _)
  | pushDouble => exact ends (.pushConstant .double _)
  | pushString => exact ends (.pushConstant .string _)
  | pushStack kind =>
    have slot (offset : Nat) : Shifts 0 0 (frameSlot offset) :=
      .offStack (.get_bind (fun _ _ => rfl) fun _ => .pure _)
    exact ((slot _).bind fun k => (Shifts.get k).bind fun v => push v).total rfl rfl
  | popStack kind => exact absurd rfl (noStore kind)
  | pushStatic kind =>
    exact ((Shifts.offStack (looks_getGlobal _).offStack).bind fun v => push v).total rfl rfl
  | popStatic kind =>
    exact (Shifts.pop.bind fun v => ends (.offStack (offStack_setGlobal _ v))).total rfl rfl
  | pushArray kind =>
    exact (Shifts.pop.bind fun i => Shifts.pop.bind fun array =>
      (Shifts.offStack (looks_arrayGet array i.toInt).offStack).bind fun v => push v).total rfl rfl
  | popArray kind =>
    exact (Shifts.pop.bind fun i => Shifts.pop.bind fun array => Shifts.pop.bind fun v =>
      ends (.offStack (offStack_arraySet array i.toInt v))).total rfl rfl
  | pushField kind =>
    exact (Shifts.pop.bind fun object =>
      (Shifts.offStack (looks_getField object _).offStack).bind fun v => push v).total rfl rfl
  | popField kind =>
    exact (Shifts.pop.bind fun object => Shifts.pop.bind fun v =>
      ends (.offStack (offStack_setField object _ v))).total rfl rfl
  | arithInt op => exact ends (.binary fun _ _ => (looks_arithInts _ _ _).offStack)
  | arithDouble op | compareInt op | compareDouble op => exact ends (.binary fun _ _ => .pure _)
  | addString => exact ends .concatenate
  | minusInt | minusDouble | logicalNot => exact ends (.unary fun _ => .pure _)
  | cast conversion => exact ends (.unary fun _ => offStack_convert _ _)
  | compareString op => exact ends (.binary fun _ _ => (looks_compareStrings _ _ _).offStack)
  | eqObject | neObject => exact ends (.compareReferences _)
  | pop => exact ends ((Shifts.pop.bind fun _ => .pure ()).total rfl rfl)
  | duplicate => exact ((Shifts.peek 0).bind fun v => push v).total rfl rfl
  | jump => exact ends (.setPc _)
  | jumpIfTrue | jumpIfFalse => exact ends (.jumpIf _ _)
  | pushMethod =>
    exact ((Shifts.peek 0).bind fun v =>
      (Shifts.offStack (looks_methodFunction v _).offStack).bind fun index =>
      push (.ofNat index.toNat)).total rfl rfl
  | invoke => exact absurd rfl noCall
  | ret => exact absurd rfl noReturn
  | new => exact ((Shifts.offStack (offStack_newInstance _)).bind fun v => push v).total rfl rfl
  | newArray kind =>
    exact (Shifts.pop.bind fun size =>
      (Shifts.offStack (offStack_newArray kind size.toInt)).bind fun v => push v).total rfl rfl
  | newArrayLiteral kind =>
    exact ((Shifts.top _).bind fun vs =>
      (Shifts.offStack (offStack_allocate (arrayOfValues kind vs))).bind fun v =>
      (Shifts.shrink _).bind fun _ => push v).total
        (by simp [Op.consumes, Op.takes, Instruction.number]) (by simp [Op.yields, Op.leaves])
  | arraySize =>
    exact ends (.unary fun v => (looks_arrayLength v).offStack.bind fun _ => .pure _)
  | stringLength =>
    exact ends (.unary fun v => (looks_expectString v).offStack.bind fun _ => .pure _)
  | downCast =>
    exact ((Shifts.peek 0).bind fun v => ends (.offStack (looks_downCast v _).offStack)).total rfl rfl
  | instanceOf =>
    exact ends (.unary fun v => (looks_instanceOf v _).offStack.bind fun _ => .pure _)

/-- A store into the frame drops its operand and changes no other cell than the one that it
addresses. -/
theorem execute_popStack_eq_ok {i : Instruction} {kind : SlotKind} (store : i.op = .popStack kind)
    {result : Option Value} (run : execute i m = .ok result m') :
  0 < m.stack.sp ∧ m'.stack.sp = m.stack.sp - 1
    ∧ ∀ k, k ≠ m.registers.base + i.number → m'.stack.cells[k]? = m.stack.cells[k]?
  := by
  obtain ⟨pc, op, operand⟩ := i
  cases store
  obtain ⟨v, m₁, run₁, rest₁⟩ := bind_eq_ok.1 run
  obtain ⟨s, popped, rfl⟩ := onStack_eq_ok run₁
  obtain ⟨enough, rfl, -⟩ := Stack.pop_eq_ok popped
  obtain ⟨slot, m₂, run₂, rest₂⟩ := bind_eq_ok.1 rest₁
  cases run₂
  obtain ⟨_, m₃, run₃, rest₃⟩ := bind_eq_ok.1 rest₂
  cases rest₃
  obtain ⟨s, stored, rfl⟩ := onStack_eq_ok run₃
  obtain ⟨-, rfl⟩ := Stack.set_eq_ok stored
  refine ⟨enough, rfl, ?_⟩
  intro k other
  exact Array.getElem?_setIfInBounds_ne other.symm

/-! ### Calls -/

/-- Whom a call instruction calls. -/
inductive Callee where
  | native (n : Native)
  | function (f : Function)

namespace Callee

/-- The change of the stack's height by the call. The arguments of a native function are replaced
by its result; those of another function stay, below its call record and its locals. -/
def effect : Callee → Int
  | .native n => -n.arity
  | .function f => f.locals.length

/-- The arguments that the call takes off the stack. -/
def args : Callee → Nat
  | .native n => n.arity
  | .function _ => 0

/-- The cells that the call puts on the stack. -/
def yields : Callee → Nat
  | .native _ => 1
  | .function f => 1 + f.locals.length

end Callee

/-- The native or other function whose index is on top of the stack. -/
def Machine.called? (m : Machine) : Option Callee :=
  match m.stack.cells[m.stack.sp - 1]? with
  | some (.value v) =>
    (m.exe.functions[v.bits.toNat]?).bind fun f =>
      if f.isNative then ((m.natives[v.bits.toNat]?).join).map .native else some (.function f)
  | _ => none

theorem shifted_of_callNative (run : callNative index f m = .ok () m') :
  ∃ n, (m.natives[index]?).join = some n ∧ m.stack.Shifted n.arity 1 m'.stack
  := by
  cases bound : (m.natives[index]?).join with
  | none =>
    rw [callNative_of_none bound] at run
    cases run
  | some n =>
    refine ⟨n, rfl, ?_⟩
    unfold callNative at run
    rw [bind_of_ok (get_eq m), bound] at run
    have shifts := (Shifts.top n.arity).bind fun args =>
      (Shifts.offStack (.onHost (n.run args))).bind fun result =>
      (Shifts.shrink n.arity).bind fun _ => Shifts.push result
    exact shifts.total (by simp) (by simp) m () m' run

/-- A function is entered only if its arguments are on the stack. -/
theorem params_le_of_enterFunction {caller : Caller}
    (run : enterFunction index f caller m = .ok () m') :
  f.params.length ≤ m.stack.sp
  := by
  by_contra few
  rw [enterFunction, bind_of_ok (get_eq m)] at run
  obtain ⟨_, m₁, made, rest⟩ := bind_eq_ok.1 run
  obtain ⟨s, reserved, rfl⟩ := onStack_eq_ok made
  have sp := (Stack.reserve_eq_ok reserved).sp_eq
  rw [bind_of_ok (get_eq _)] at rest
  dsimp only at rest
  rw [if_pos (by omega)] at rest
  cases rest

theorem shifted_of_enterFunction {caller : Caller} (fits : m.stack.sp ≤ m.stack.cells.size)
    (run : enterFunction index f caller m = .ok () m') :
  m.stack.Shifted 0 (1 + f.locals.length) m'.stack
  := by
  obtain ⟨⟨vs, length, extended⟩, -⟩ := enterFunction_eq_ok (params_le_of_enterFunction run) run
  have shifted := Stack.Shifted.extended extended fits
  rwa [List.length_cons, List.length_map, length, Nat.add_comm] at shifted

theorem shifted_of_invoke (run : invoke m = .ok () m') :
  ∃ callee, m.called? = some callee ∧ m.stack.Shifted (callee.args + 1) callee.yields m'.stack
  := by
  obtain ⟨v, m₁, run₁, rest₁⟩ := bind_eq_ok.1 run
  obtain ⟨s, popped, rfl⟩ := onStack_eq_ok run₁
  obtain ⟨enough, rfl, top⟩ := Stack.pop_eq_ok popped
  have dropped : m.stack.Shifted 1 0 (m.stack.lowered 1) := .lowered enough
  have inside : m.stack.sp - 1 < m.stack.cells.size := (Array.getElem?_eq_some_iff.1 top).1
  rw [bind_of_ok (get_eq _)] at rest₁
  cases found : m.exe.functions[v.bits.toNat]? with
  | none =>
    rw [found] at rest₁
    cases rest₁
  | some f =>
    rw [found] at rest₁
    dsimp only at rest₁
    split at rest₁
    · next native =>
        obtain ⟨_, m₂, run₂, rest₂⟩ := bind_eq_ok.1 rest₁
        cases rest₂
        obtain ⟨n, bound, shifted⟩ := shifted_of_callNative run₂
        refine ⟨.native n, by simp [called?, top, found, native, bound], ?_⟩
        simpa [Callee.args, Callee.yields, Nat.add_comm] using dropped.trans shifted
    · next bytecode =>
        rw [bind_of_ok (get_eq _)] at rest₁
        have shifted := shifted_of_enterFunction (Nat.le_of_lt inside) rest₁
        refine ⟨.function f, by simp [called?, top, found, bytecode], ?_⟩
        simpa [Callee.args, Callee.yields] using dropped.trans shifted

/-! ### Effects -/

namespace Machine

/-- The change of the stack's height by an instruction. That by a `return` depends on the frame. -/
def effect? (m : Machine) (i : Instruction) : Option Int :=
  match i.op with
  | .ret => none
  | .invoke => m.called?.map Callee.effect
  | .newArrayLiteral _ => some (1 - i.number)
  | op => some op.stackEffect

/-- The cells that an instruction takes off the stack. -/
def consumed (m : Machine) (i : Instruction) : Nat :=
  match i.op with
  | .invoke => (m.called?.map Callee.args).getD 0 + 1
  | op => op.consumes i.number

variable {m m' : Machine} {i : Instruction}

theorem effect?_of_noCall (noCall : i.op ≠ .invoke) (noReturn : i.op ≠ .ret) :
  m.effect? i = some ((i.op.yields : Int) - i.op.consumes i.number)
  := by
  unfold effect?
  split
  · contradiction
  · contradiction
  · next kind literal =>
      rw [literal]
      rfl
  · next noLiteral =>
      rw [Op.stackEffect_eq_yields noCall noReturn noLiteral]

theorem consumed_of_noCall (noCall : i.op ≠ .invoke) :
  m.consumed i = i.op.consumes i.number
  := by
  unfold consumed
  split
  · contradiction
  · rfl

/-- The stack pointer has changed by the effect of the instruction. No cell below those that it
consumed has changed, apart from the slot that a store addresses. -/
structure Affected (i : Instruction) (m m' : Machine) : Prop where
  sp_eq : ∃ effect, m.effect? i = some effect ∧ (m'.stack.sp : Int) = m.stack.sp + effect
  enough : m.consumed i ≤ m.stack.sp
  below : ∀ k, k < m.stack.sp - m.consumed i →
    (∀ kind, i.op = .popStack kind → k ≠ m.registers.base + i.number) →
    m'.stack.cells[k]? = m.stack.cells[k]?

/-- A shift by what the instruction consumes. -/
theorem Affected.of_shifted {leaves : Nat} {effect : Int}
    (shifted : m.stack.Shifted (m.consumed i) leaves m'.stack) (known : m.effect? i = some effect)
    (difference : effect = leaves - m.consumed i) :
  Affected i m m'
  := by
  obtain ⟨enough, sp, below⟩ := shifted
  exact ⟨⟨effect, known, by omega⟩, enough, fun k under _ => below k under⟩

theorem affected_of_execute {result : Option Value} (noReturn : i.op ≠ .ret)
    (run : execute i m = .ok result m') :
  Affected i m m'
  := by
  by_cases call : i.op = .invoke
  · rw [execute_invoke call] at run
    obtain ⟨_, m₁, called, rest⟩ := bind_eq_ok.1 run
    cases rest
    obtain ⟨callee, found, shifted⟩ := shifted_of_invoke called
    change m.called? = some callee at found
    have consumed : m.consumed i = callee.args + 1 := by simp [Machine.consumed, call, found]
    have known : m.effect? i = some callee.effect := by simp [effect?, call, found]
    rw [← consumed] at shifted
    apply Affected.of_shifted shifted known
    rw [consumed]
    cases callee with
    | native n | function f =>
      simp only [Callee.effect, Callee.args, Callee.yields]
      omega
  · have known := effect?_of_noCall (m := m) call noReturn
    have consumed := consumed_of_noCall (m := m) call
    by_cases store : ∃ kind, i.op = .popStack kind
    · obtain ⟨kind, store⟩ := store
      obtain ⟨enough, sp, others⟩ := execute_popStack_eq_ok store run
      rw [store] at known consumed
      change m.effect? i = some (-1) at known
      change m.consumed i = 1 at consumed
      refine ⟨⟨-1, known, by omega⟩, by omega, ?_⟩
      intro k _ other
      exact others k (other kind store)
    · have shifted := shifts_execute call noReturn (fun kind is => store ⟨kind, is⟩) m _ m' run
      rw [← consumed] at shifted known
      exact .of_shifted shifted known rfl

/-- A step that succeeds has executed the instruction at the program counter, if there is one. -/
theorem exists_execute_of_step {next : Next} (fetched : fetch m.code m.registers.pc = .ok i)
    (run : step m = .ok next m') :
  ∃ host result, execute i ({ m with host }.advanced i) = .ok result m'
  := by
  have inside : ¬m.code.size ≤ m.registers.pc := by
    have bounds := (fetch_eq_ok_iff.1 fetched).2.2.1
    have positive := i.op.size_pos
    omega
  rw [step_eq] at run
  cases due : collectIfDue m with
  | error trap m₁ =>
    rw [due] at run
    cases run
  | ok _ m₁ =>
    obtain ⟨host, rfl⟩ := eq_of_collectIfDue due
    rw [due] at run
    dsimp only at run
    split at run
    · next outside => exact absurd outside inside
    · split at run
      · cases run
      · next i' fetched' =>
          cases fetched.symm.trans fetched'
          split at run
          · cases run
          · next executed =>
              cases run
              exact ⟨host, _, executed⟩
          · next executed =>
              cases run
              exact ⟨host, _, executed⟩

/-- For an instruction other than a `return` that a machine has completed, the stack pointer has
changed by the effect of its opcode, that of a call or of an array literal by what the callee or the
operand says, and no cell below those that it consumed has changed, apart from the slot of the frame
that a store addresses. -/
theorem affected_of_step {next : Next} (fetched : fetch m.code m.registers.pc = .ok i)
    (noReturn : i.op ≠ .ret) (run : step m = .ok next m') :
  Affected i m m'
  := by
  obtain ⟨host, result, executed⟩ := exists_execute_of_step fetched run
  -- The collection and the program counter have nothing to do with the stack.
  obtain ⟨sp_eq, enough, below⟩ := affected_of_execute noReturn executed
  exact ⟨sp_eq, enough, below⟩

/-- A call of a function with two locals. -/
def callOfTwoLocals : Executable where
  functions := #[{
    name := "f"
    package := ""
    class_ := none
    returnType := .int
    params := [⟨"x", .int⟩]
    locals := [⟨"y", .int⟩, ⟨"z", .boolean⟩]
    code := some ⟨#[79], #[⟨1, 0, 1⟩]⟩ }]
  topLevel := ⟨#[78], #[⟨2, 0, 1⟩]⟩

/-- The argument and the index of the function fill the stack. -/
def callBefore : Machine :=
  ofStack callOfTwoLocals {} 0 ⟨#[.value (.ofInt 5), .value (.ofNat 0)], 2, 8⟩

/-- The index makes room for the call record, and the locals come on top; the argument stays. -/
theorem affected_call :
  ∃ m', step callBefore = .ok .running m' ∧ callBefore.effect? ⟨0, .invoke, none⟩ = some 2
    ∧ m'.stack.sp = 4 ∧ m'.stack.cells[0]? = some (.value (.ofInt 5))
  := by
  have fetched : fetch callBefore.code callBefore.registers.pc = .ok ⟨0, .invoke, none⟩ := rfl
  have run : step callBefore = .ok .running (stateOf (step callBefore)) := rfl
  have known : callBefore.effect? ⟨0, .invoke, none⟩ = some 2 := rfl
  obtain ⟨⟨effect, known', sp⟩, -, below⟩ := affected_of_step fetched (by decide) run
  rw [known] at known'
  cases known'
  change ((stateOf (step callBefore)).stack.sp : Int) = 2 + 2 at sp
  exact ⟨_, run, known, by omega, below 0 (by decide) (fun _ store => by cases store)⟩

end Machine

end Bytecode
