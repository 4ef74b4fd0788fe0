import Mathlib
import Bytecode.Proofs.Machine.Instructions

/-!
# Laws of a machine

A law is a preorder on machines: it relates a machine to what becomes of it. An action follows a
law if it does so however it ends. Since instructions are made of few kinds of actions, it is
enough that these follow a law for every instruction, every step and the entry of every call to do
so. Laws that look neither at the stack nor at the registers, `Law.of_stackless`, need even less.
What all actions but collections follow is a `CodeLaw`; a step follows it from its collection on.
-/

namespace Bytecode

open Machine

/-- However the action ends, the machine is related to the one before it. -/
def Follows {α : Type} (R : Machine → Machine → Prop) (x : MachineM α) : Prop :=
  ∀ m, R m (stateOf (x m))

namespace Follows

variable {α β : Type} {R : Machine → Machine → Prop} [IsPreorder Machine R]

theorem pure (a : α) :
  Follows R (Pure.pure a : MachineM α)
  := fun m => refl_of R m

theorem throw (trap : Trap) :
  Follows R (MonadExcept.throw trap : MachineM α)
  := fun m => refl_of R m

/-- The second part need follow only where the first one leads. -/
theorem bind_at {x : MachineM α} {f : α → MachineM β} {m : Machine} (first : R m (stateOf (x m)))
    (second : ∀ a m₁, x m = .ok a m₁ → R m₁ (stateOf (f a m₁))) :
  R m (stateOf ((x >>= f) m))
  := by
  rw [stateOf_bind]
  cases run : x m with
  | ok a m₁ =>
    rw [run] at first
    exact trans_of R first (second a m₁ run)
  | error trap m₁ =>
    rw [run] at first
    exact first

theorem bind {x : MachineM α} {f : α → MachineM β} (first : Follows R x)
    (second : ∀ a, Follows R (f a)) :
  Follows R (x >>= f)
  := fun m => bind_at (first m) fun a m₁ _ => second a m₁

omit [IsPreorder Machine R] in
theorem get_bind {f : Machine → MachineM β} (each : ∀ m, Follows R (f m)) :
  Follows R (get >>= f)
  := fun m => each m m

/-- What is made of actions that follow a relation follows it. -/
theorem of_made
    (onValues : ∀ {α : Type} {action : StackM α}, Stack.OnValues action → Follows R (onStack action))
    (offStack : ∀ {α : Type} {x : MachineM α}, OffStack x → Derives x → Follows R x)
    {x : MachineM α} (made : Made x) :
  Follows R x
  := by
  induction made with
  | pure a => exact pure a
  | bind _ _ first second => exact first.bind second
  | onStack action => exact onValues action
  | offStack off ordinary => exact offStack off ordinary.derives

end Follows

namespace Machine

/-- The machine with the registers and the stack pointer of another one. -/
def withFrameOf (m m' : Machine) : Machine :=
  { m' with registers := m.registers, stack := { m'.stack with sp := m.stack.sp } }

end Machine

/-- What it takes for all instructions but calls and returns to follow the relation. -/
structure LocalLaw (R : Machine → Machine → Prop) : Prop where
  onValues : ∀ {α : Type} {action : StackM α}, Stack.OnValues action → Follows R (onStack action)
  offStack : ∀ {α : Type} {x : MachineM α}, OffStack x → Derives x → Follows R x
  atPc : ∀ pc, Follows R (setPc pc)

/-- What it takes for all actions of a machine but collections to follow the relation. -/
structure CodeLaw (R : Machine → Machine → Prop) : Prop extends LocalLaw R where
  advanced : ∀ m i, R m (m.advanced i)
  enterFunction : ∀ index f caller, Follows R (enterFunction index f caller)
  callNative : ∀ index f, Follows R (callNative index f)
  returnValue : Follows R returnValue
  restart : ∀ m, R m m.restart
  withFrameOf : ∀ m m', R m m' → R m (m.withFrameOf m')

/-- What it takes for all actions of a machine to follow the relation. -/
structure Law (R : Machine → Machine → Prop) : Prop extends CodeLaw R where
  collect : Follows R collect

/-- The literal that an instruction pushes is made of its constant, or is a fault. -/
theorem derives_literal {select : Constant → Option (MachineM Value)}
    (selection : Instruction.Selection select) (index : Nat) :
  Derives (Instruction.compute.literal index select)
  := by
  apply Derives.get_bind
  intro m
  cases found : (m.exe.constants[index]?).bind select with
  | none => exact .throw _
  | some x =>
    exact selection.each (fun v _ => .pure v) (fun text => (ordinary_newString text).derives) found

namespace LocalLaw

variable {α : Type} {R : Machine → Machine → Prop} [IsPreorder Machine R]

theorem made (law : LocalLaw R) {x : MachineM α} (made : Made x) :
  Follows R x
  := .of_made law.onValues law.offStack made

theorem pushConstant (law : LocalLaw R) {select : Constant → Option (MachineM Value)}
    (selection : Instruction.Selection select) (index : Nat) :
  Follows R (Machine.pushConstant index select)
  := by
  rw [pushConstant_eq]
  apply (law.offStack (Instruction.offStack_literal selection index)
    (derives_literal selection index)).bind
  intro v
  exact law.onValues (.push _)

theorem jumpIf (law : LocalLaw R) (truth : Bool) (target : Nat) :
  Follows R (Machine.jumpIf truth target)
  := by
  apply (law.onValues .pop).bind
  intro v
  split
  · exact law.atPc target
  · exact .pure _

/-- Every instruction but calls and returns follows the law. -/
theorem execute (law : LocalLaw R) {i : Instruction} (noCall : i.op ≠ .invoke)
    (noReturn : i.op ≠ .ret) :
  Follows R (Machine.execute i)
  := by
  have ends {x : MachineM Unit} (follows : Follows R x) :
      Follows R (x >>= fun _ => (Pure.pure none : MachineM (Option Value))) :=
    follows.bind fun _ => .pure _
  obtain ⟨pc, op, operand⟩ := i
  cases op with
  | pushInt => exact ends (law.pushConstant .int _)
  | pushDouble => exact ends (law.pushConstant .double _)
  | pushString => exact ends (law.pushConstant .string _)
  | jump => exact ends (law.atPc _)
  | jumpIfTrue | jumpIfFalse => exact ends (law.jumpIf _ _)
  | invoke => exact absurd rfl noCall
  | ret => exact absurd rfl noReturn
  | _ => exact law.made (made_execute rfl nofun)

end LocalLaw

/-- A call follows the relation if what it consists of does. -/
theorem Follows.invoke {R : Machine → Machine → Prop} [IsPreorder Machine R]
    (pop : Follows R Machine.pop) (atPc : ∀ pc, Follows R (setPc pc))
    (callNative : ∀ index f, Follows R (Machine.callNative index f))
    (enterFunction : ∀ index f caller, Follows R (Machine.enterFunction index f caller)) :
  Follows R Machine.invoke
  := by
  apply pop.bind
  intro v
  apply Follows.get_bind
  intro m
  cases m.exe.functions[v.bits.toNat]? with
  | none => exact .throw _
  | some f =>
    dsimp only
    split
    · apply (callNative _ _).bind
      intro _ m₁
      exact atPc (m₁.registers.pc + 1) m₁
    · exact .get_bind fun _ => enterFunction _ _ _

namespace CodeLaw

variable {R : Machine → Machine → Prop} [IsPreorder Machine R]

theorem invoke (law : CodeLaw R) :
  Follows R Machine.invoke
  := .invoke (law.onValues .pop) law.atPc law.callNative law.enterFunction

/-- Every instruction follows the law. -/
theorem execute (law : CodeLaw R) (i : Instruction) :
  Follows R (Machine.execute i)
  := by
  intro m
  by_cases call : i.op = .invoke
  · rw [execute_invoke call]
    exact trans_of R (law.atPc i.pc m) ((law.invoke.bind fun _ => .pure _) _)
  · by_cases returns : i.op = .ret
    · rw [execute_ret returns]
      exact trans_of R (law.atPc i.pc m) (law.returnValue _)
    · exact law.toLocalLaw.execute call returns m

/-- Every step follows the law from its collection on. -/
theorem step (law : CodeLaw R) (m : Machine) :
  R (stateOf (Machine.collectIfDue m)) (stateOf (Machine.step m))
  := by
  rcases stateOf_step m with same | ⟨m₁, i, due, -, same⟩
  · rw [same]
    exact refl_of R _
  · rw [same, due]
    exact trans_of R (law.advanced m₁ i) (law.execute i _)

/-! ### Calls from the host -/

theorem beginCall (law : CodeLaw R) (index : Nat) (f : Function) (args : List Value) :
  Follows R (Machine.beginCall index f args)
  := by
  apply (law.made (made_pushAll args)).bind
  intro _
  split
  · exact (law.callNative _ _).bind fun _ => (law.onValues .pop).bind fun _ => .pure _
  · exact (law.enterFunction _ _ _).bind fun _ => .pure _

end CodeLaw

namespace Law

variable {R : Machine → Machine → Prop} [IsPreorder Machine R]

theorem collectIfDue (law : Law R) :
  Follows R Machine.collectIfDue
  := by
  apply Follows.get_bind
  intro m
  split
  · exact law.collect.bind fun _ => .pure _
  · exact .pure _

/-- Every step follows the law. -/
theorem step (law : Law R) :
  Follows R Machine.step
  := fun m => trans_of R (law.collectIfDue m) (law.toCodeLaw.step m)

/-- A native function follows a law if the procedure that it is bound to does. -/
theorem follows_callNative
    (onValues : ∀ {α : Type} {action : StackM α}, Stack.OnValues action →
      Follows R (Machine.onStack action))
    (native : ∀ (m : Machine) (index : Nat) (native : Native) (args : List Value),
      (m.natives[index]?).join = some native → R m (stateOf (onHost (native.run args) m)))
    (index : Nat) (f : Function) :
  Follows R (Machine.callNative index f)
  := by
  intro m
  rw [Machine.callNative, bind_of_ok (get_eq m)]
  cases bound : (m.natives[index]?).join with
  | none => exact refl_of R m
  | some procedure =>
    apply Follows.bind_at (onValues (.top _) m)
    intro args m₁ read
    have natives : m₁.natives = m.natives := by
      rw [onStack_eq] at read
      split at read
      all_goals cases read
      rfl
    apply Follows.bind_at (native m₁ index procedure args (by rw [natives, bound]))
    intro result m₂ _
    exact ((onValues (.shrink _)).bind fun _ => onValues (.push _)) m₂

/-! ### Laws off the stack -/

section

variable (onStack : ∀ {α : Type} (action : StackM α), Follows R (Machine.onStack action))
  (registers : ∀ f : Machine → Registers, Follows R (modify fun m => { m with registers := f m }))

include onStack registers in
theorem follows_enterFunction (pushLocals : ∀ decls, Follows R (Machine.pushLocals decls))
    (index : Nat) (f : Function) (caller : Caller) :
  Follows R (Machine.enterFunction index f caller)
  := by
  have entered (sp : Nat) (r : Registers) : Follows R (do
      Machine.onStack (Stack.pushCall ⟨caller, r.pc, r.base⟩)
      Machine.pushLocals f.locals
      modify fun m => { m with registers :=
        { m.registers with current := some index, pc := 0, base := sp - f.params.length } }) :=
    (onStack _).bind fun _ => (pushLocals _).bind fun _ => registers _
  apply Follows.get_bind
  intro m
  apply (onStack _).bind
  intro _
  apply Follows.get_bind
  intro m₁
  dsimp only
  split
  · exact (Follows.throw _).bind fun _ => entered _ _
  · exact entered _ _

include onStack registers in
theorem follows_returnValue :
  Follows R Machine.returnValue
  := by
  apply (onStack _).bind
  intro v
  apply Follows.get_bind
  intro m
  cases m.registers.current with
  | none => exact .pure _
  | some index =>
    apply Follows.get_bind
    intro m₁
    apply Follows.get_bind
    intro m₂
    apply Follows.get_bind
    intro m₃
    dsimp only
    split
    · exact .throw _
    · next info _ =>
        apply Follows.get_bind
        intro m₄
        apply (onStack _).bind
        intro _
        apply (onStack _).bind
        intro _
        apply (registers _).bind
        intro _
        cases info.caller with
        | host => exact .pure _
        | topLevel | function caller => exact (registers _).bind fun _ => .pure _

end

omit [IsPreorder Machine R] in
/-- Actions on the stack follow a relation that looks neither at the stack nor at the registers. -/
theorem follows_onStack
    (frame : ∀ (m : Machine) (s : Stack) (r : Registers), R m { m with stack := s, registers := r })
    {α : Type} (action : StackM α) :
  Follows R (Machine.onStack action)
  := by
  intro m
  rw [stateOf_onStack]
  exact frame m _ m.registers

/-- A law that looks neither at the stack nor at the registers. -/
theorem of_stackless
    (frame : ∀ (m : Machine) (s : Stack) (r : Registers), R m { m with stack := s, registers := r })
    (offStack : ∀ {α : Type} {x : MachineM α}, OffStack x → Derives x → Follows R x)
    (collect : Follows R Machine.collect)
    (native : ∀ (m : Machine) (index : Nat) (native : Native) (args : List Value),
      (m.natives[index]?).join = some native → R m (stateOf (onHost (native.run args) m))) :
  Law R
  := by
  have onStack {α : Type} (action : StackM α) : Follows R (Machine.onStack action) :=
    follows_onStack frame action
  have registers (f : Machine → Registers) :
      Follows R (modify fun m => { m with registers := f m }) := fun m => frame m m.stack (f m)
  refine ⟨⟨⟨?_, ?_, ?_⟩, ?_, ?_, ?_, ?_, ?_, ?_⟩, collect⟩
  · exact fun _ => onStack _
  · exact offStack
  · exact fun _ => registers _
  · exact fun m _ => frame m m.stack _
  · exact follows_enterFunction onStack registers fun decls =>
      .of_made (fun _ => onStack _) offStack (made_pushLocals decls)
  · exact follows_callNative (fun _ => onStack _) native
  · exact follows_returnValue onStack registers
  · exact fun m => frame m _ _
  · exact fun m m' related => trans_of R related (frame m' _ _)

end Law

end Bytecode
