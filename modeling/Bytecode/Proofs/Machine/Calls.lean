import Mathlib
import Bytecode.Proofs.Heap.Collector
import Bytecode.Proofs.Machine.Operands

/-!
# Jumps, variables, calls and returns

What the instructions do that are not plain: jumps set the program counter, reading and writing
a local addresses the frame, a call adds a frame to the stack and a return drops one. `step_eq`
says what a whole step consists of.
-/

namespace Bytecode

namespace Machine

variable {m m' : Machine} {i : Instruction} {low : Nat} {us : List Value} {v : Value}
  {q : Nat → Option Cell}
variable {f : Function} {index : Nat} {α : Type} {caller : Caller}

/-- The machine at another place of its code. -/
def atPc (pc : Nat) (m : Machine) : Machine := { m with registers := { m.registers with pc } }

/-! ### Jumps -/

theorem execute_jump (jump : i.op = .jump) :
  execute i m = .ok none (m.atPc i.number)
  := by
  obtain ⟨pc, op, operand⟩ := i
  cases jump
  rfl

theorem jumpIf_eq (h : m.stack.Holds low (us ++ [v])) (truth : Bool) (target : Nat) :
  jumpIf truth target m
    = .ok () (if v.toBool == truth then (m.lowered 1).atPc target else m.lowered 1)
  := by
  unfold jumpIf
  rw [bind_of_ok (pop_eq h)]
  split
  all_goals rfl

/-- A conditional jump drops its condition and goes to its target or on. -/
theorem execute_jumpIf {truth : Bool} (jump : i.op = if truth then .jumpIfTrue else .jumpIfFalse)
    (h : m.stack.Holds low (us ++ [v])) :
  execute i m
    = .ok none (if v.toBool == truth then (m.lowered 1).atPc i.number else m.lowered 1)
  := by
  obtain ⟨pc, op, operand⟩ := i
  have goes := jumpIf_eq h truth (operand.getD 0).toNat
  cases truth with
  | true | false =>
    cases jump
    exact bind_of_ok goes _

/-! ### Variables of the frame -/

theorem execute_pushStack {kind : SlotKind} (load : i.op = .pushStack kind)
    (found : m.stack.cells[m.registers.base + i.number]? = some (.value v)) :
  execute i m = (push v >>= fun _ => pure none) m
  := by
  obtain ⟨pc, op, operand⟩ := i
  cases load
  have read : onStack (Stack.get (m.registers.base + (operand.getD 0).toNat)) m = .ok v m := by
    apply onStack_of_ok
    unfold Stack.get
    rw [show m.stack.cells[m.registers.base + (operand.getD 0).toNat]? = _ from found]
  exact bind_of_ok read _

/-- The machine with a value in a cell. -/
def withCell (index : Nat) (v : Value) (m : Machine) : Machine :=
  { m with stack := { m.stack with cells := m.stack.cells.setIfInBounds index (.value v) } }

theorem execute_popStack {kind : SlotKind} (store : i.op = .popStack kind)
    (h : m.stack.Holds low (us ++ [v]))
    (inside : m.registers.base + i.number < m.stack.cells.size) :
  execute i m
    = .ok none ((m.lowered 1).withCell (m.registers.base + i.number) v)
  := by
  obtain ⟨pc, op, operand⟩ := i
  cases store
  have written : onStack (Stack.set (m.registers.base + (operand.getD 0).toNat) v) (m.lowered 1)
      = .ok () ((m.lowered 1).withCell (m.registers.base + (operand.getD 0).toNat) v) :=
    onStack_of_ok (Stack.set_eq inside)
  exact (bind_of_ok (pop_eq h) _).trans (bind_of_ok written _)

/-! ### Entering a function -/

/-- The machine with another heap. -/
def withHeap (heap : Heap) (m : Machine) : Machine := { m with host := { m.host with heap } }

theorem modifyHeap_eq (f : Heap → α × Heap) (m : Machine) :
  modifyHeap f m = .ok (f m.heap).1 (m.withHeap (f m.heap).2)
  := by
  cases m
  rfl

theorem push_eq_ok (run : push v m = .ok () m') :
  m.stack.Extended [.value v] m'.stack ∧ m' = { m with stack := m'.stack }
  := by
  obtain ⟨s, pushed, rfl⟩ := onStack_eq_ok run
  exact ⟨(Stack.pushCell_eq_ok pushed).extended, rfl⟩

/-- The locals are pushed; nothing else but the heap has changed. -/
theorem pushLocals_eq_ok {decls : List VariableDecl} (run : pushLocals decls m = .ok () m') :
  (∃ vs : List Value, vs.length = decls.length ∧ m.stack.Extended (vs.map .value) m'.stack)
    ∧ m' = { m with stack := m'.stack, host := m'.host }
  := by
  induction decls generalizing m with
  | nil =>
    cases run
    exact ⟨⟨[], rfl, .refl _⟩, rfl⟩
  | cons decl rest ih =>
    unfold pushLocals at run
    rw [bind_of_ok (modifyHeap_eq _ m)] at run
    obtain ⟨_, m₁, run₁, rest₁⟩ := bind_eq_ok.1 run
    obtain ⟨pushed, same⟩ := push_eq_ok run₁
    obtain ⟨⟨vs, length, extended⟩, same'⟩ := ih rest₁
    refine ⟨⟨(m.heap.defaultValue decl.ty).1 :: vs, by simp [length], ?_⟩, ?_⟩
    · exact pushed.trans extended
    · rw [same', same]
      rfl

theorem pushLocals_patched {decls : List VariableDecl}
    (spared : ∀ k, m.stack.sp ≤ k → q k = none) :
  pushLocals decls (m.patched q) = onState (patched q) (pushLocals decls m)
  := by
  induction decls generalizing m with
  | nil => rfl
  | cons decl rest ih =>
    unfold pushLocals
    apply bind_onState (offStack_patched (.modifyHeap _) q)
    intro v m₁ made
    have kept : m₁.stack = m.stack := by
      rw [modifyHeap_eq] at made
      cases made
      rfl
    rw [← kept] at spared
    apply bind_onState (push_patched spared v)
    intro _ m₂ run₂
    have sp := (push_eq_ok run₂).1.sp_eq
    apply ih
    intro k above
    exact spared k (by omega)

/-- Go to the start of a function. -/
def goTo (index base : Nat) : MachineM Unit :=
  modify fun m =>
    { m with registers := { m.registers with current := some index, pc := 0, base } }

/-- A function is entered by making room, pushing a call record and the locals, and going to its
start. -/
theorem enterFunction_eq (enough : f.params.length ≤ m.stack.sp) :
  enterFunction index f caller m
    = (do
        onStack (Stack.reserve (Frame.recordSize + f.locals.length))
        onStack (Stack.pushCall ⟨caller, m.registers.pc, m.registers.base⟩)
        pushLocals f.locals
        goTo index (m.stack.sp - f.params.length)) m
  := by
  cases made : onStack (Stack.reserve (Frame.recordSize + f.locals.length)) m with
  | error trap m₁ =>
    rw [bind_of_error made]
    exact bind_of_error made _
  | ok _ m₁ =>
    rw [bind_of_ok made]
    obtain ⟨s, reserved, rfl⟩ := onStack_eq_ok made
    have sp := (Stack.reserve_eq_ok reserved).sp_eq
    refine (bind_of_ok made _).trans ?_
    change (if s.sp < f.params.length then (_ : MachineM Unit) else _) { m with stack := s } = _
    rw [if_neg (by omega), ← sp]
    rfl

/-- What has happened when a function has been entered. -/
theorem enterFunction_eq_ok (enough : f.params.length ≤ m.stack.sp)
    (run : enterFunction index f caller m = .ok () m') :
  (∃ vs : List Value, vs.length = f.locals.length
      ∧ m.stack.Extended (.call ⟨caller, m.registers.pc, m.registers.base⟩ :: vs.map .value)
        m'.stack)
    ∧ m' = { m with
        stack := m'.stack
        host := m'.host
        registers := { m.registers with
          current := some index, pc := 0, base := m.stack.sp - f.params.length } }
  := by
  rw [enterFunction_eq enough] at run
  obtain ⟨_, m₁, run₁, rest₁⟩ := bind_eq_ok.1 run
  obtain ⟨_, m₂, run₂, rest₂⟩ := bind_eq_ok.1 rest₁
  obtain ⟨_, m₃, run₃, rest₃⟩ := bind_eq_ok.1 rest₂
  obtain ⟨s₁, reserved, rfl⟩ := onStack_eq_ok run₁
  obtain ⟨s₂, recorded, rfl⟩ := onStack_eq_ok run₂
  obtain ⟨⟨vs, length, extended⟩, same⟩ := pushLocals_eq_ok run₃
  cases rest₃
  have room := (Stack.reserve_eq_ok reserved).extended
  have record := (Stack.pushCell_eq_ok recorded).extended
  refine ⟨⟨vs, length, (room.trans record).trans extended⟩, ?_⟩
  rw [same]

theorem enterFunction_patched (enough : f.params.length ≤ m.stack.sp)
    (fits : m.stack.sp ≤ m.stack.cells.size) (spared : ∀ k, m.stack.sp ≤ k → q k = none) :
  enterFunction index f caller (m.patched q)
    = onState (patched q) (enterFunction index f caller m)
  := by
  rw [enterFunction_eq enough, enterFunction_eq (m := m.patched q) enough]
  apply bind_onState
  · exact onStack_patched (Stack.reserve_patched (fun k above => spared k (by omega)) _)
  intro _ m₁ run₁
  obtain ⟨s₁, reserved, rfl⟩ := onStack_eq_ok run₁
  have sp₁ := (Stack.reserve_eq_ok reserved).sp_eq
  have spared₁ : ∀ k, s₁.sp ≤ k → q k = none := fun k above => spared k (by omega)
  apply bind_onState
  · exact onStack_patched (Stack.pushCell_patched spared₁ _)
  intro _ m₂ run₂
  obtain ⟨s₂, recorded, rfl⟩ := onStack_eq_ok run₂
  have sp₂ := (Stack.pushCell_eq_ok recorded).sp_eq
  change s₂.sp = s₁.sp + 1 at sp₂
  have spared₂ : ∀ k, s₂.sp ≤ k → q k = none := fun k above => spared₁ k (by omega)
  apply bind_onState
  · exact pushLocals_patched spared₂
  · exact fun _ _ _ => rfl

/-! ### Calling -/

/-- A native function operates on its arguments. -/
theorem callNative_eq {native : Native} {vs : List Value}
    (bound : (m.natives[index]?).join = some native) (h : m.stack.Holds low vs)
    (count : vs.length = native.arity) :
  callNative index f m
    = operate vs.length 0 vs.length (fun vs => some <$> onHost (native.run vs)) m
  := by
  have all : m.stack.Holds low (vs ++ []) := by simpa using h
  have read := operate_eq all vs.length (fun vs => some <$> onHost (native.run vs))
  simp only [List.append_nil, map_eq_pure_bind, bind_assoc, pure_bind] at read
  refine Eq.trans ?_ read.symm
  rw [callNative, bind_of_ok (get_eq m), bound]
  dsimp only
  rw [← count]
  exact bind_of_ok (top_eq h) _

theorem callNative_of_none (unbound : (m.natives[index]?).join = none) :
  callNative index f m = .error (.error (.native f.qualifiedName "not linked")) m
  := by
  rw [callNative, bind_of_ok (get_eq m), unbound]
  rfl

/-- The caller that a call from the given code records. -/
def callerOf : Option Nat → Caller
  | none => .topLevel
  | some index => .function index

/-- A call is decided by the index on top of the stack. -/
theorem invoke_eq (h : m.stack.Holds low (us ++ [v]))
    (found : m.exe.functions[v.bits.toNat]? = some f) :
  invoke m
    = (if f.isNative then do
        callNative v.bits.toNat f
        modify fun m => { m with registers := { m.registers with pc := m.registers.pc + 1 } }
      else enterFunction v.bits.toNat f (callerOf m.registers.current)) (m.lowered 1)
  := by
  unfold invoke
  rw [bind_of_ok (pop_eq h), bind_of_ok (get_eq _), lowered_exe, found]
  dsimp only
  split
  · rfl
  · rw [bind_of_ok (get_eq _), lowered_registers]
    cases m.registers.current with
    | none => rfl
    | some current => rfl

theorem invoke_of_none (h : m.stack.Holds low (us ++ [v]))
    (missing : m.exe.functions[v.bits.toNat]? = none) :
  invoke m = .error .crash (m.lowered 1)
  := by
  unfold invoke
  rw [bind_of_ok (pop_eq h), bind_of_ok (get_eq _), lowered_exe, missing]
  rfl

theorem execute_invoke (call : i.op = .invoke) (m : Machine) :
  execute i m = (invoke >>= fun _ => pure none) (m.atPc i.pc)
  := by
  obtain ⟨pc, op, operand⟩ := i
  cases call
  rfl

theorem execute_ret (returns : i.op = .ret) (m : Machine) :
  execute i m = returnValue (m.atPc i.pc)
  := by
  obtain ⟨pc, op, operand⟩ := i
  cases returns
  rfl

/-! ### Returning -/

/-- The machine after a return to the caller that a record names. -/
def returned (info : CallInfo) (v : Value) (m : Machine) : Machine :=
  { m with
    stack := { m.stack with
      cells := m.stack.cells.setIfInBounds m.registers.base (.value v), sp := m.registers.base + 1 }
    registers := { m.registers with
      current := match info.caller with
        | .host => m.registers.current
        | .topLevel => none
        | .function index => some index
      pc := info.pc + 1
      base := info.base } }

/-- A return drops the frame and leaves the value in its place. -/
theorem returnValue_eq {info : CallInfo} (h : m.stack.Holds low (us ++ [v]))
    (current : m.registers.current = some index) (found : m.exe.functions[index]? = some f)
    (record : m.stack.callInfo? (m.registers.base + f.params.length) = some info)
    (inside : m.registers.base < m.stack.cells.size) :
  returnValue m = .ok (if info.caller = .host then some v else none) (m.returned info v)
  := by
  unfold returnValue
  rw [bind_of_ok (pop_eq h), bind_of_ok (get_eq _), lowered_registers, current]
  dsimp only
  iterate 3 rw [bind_of_ok (get_eq _)]
  have record' : (m.lowered 1).stack.callInfo? (m.registers.base
      + Frame.recordOffset (((m.exe.functions[index]?).map fun f => f.params.length).getD 0))
      = some info := by
    rw [found]
    exact record
  rw [lowered_exe, lowered_registers, record']
  dsimp only
  let dropped : Machine := { m with stack := { m.stack with sp := m.registers.base } }
  have pushed : push v dropped = .ok () { dropped with stack := { dropped.stack with
      cells := m.stack.cells.setIfInBounds m.registers.base (.value v)
      sp := m.registers.base + 1 } } := onStack_of_ok (Stack.pushCell_eq_of_lt inside)
  change (push v >>= _) dropped = _
  rw [bind_of_ok pushed]
  cases goesOn : info.caller with
  | host | topLevel | function caller =>
    simp only [returned, goesOn]
    rfl

/-! ### Steps -/

theorem stateOf_onHost (action : EStateM Trap Host α) (m : Machine) :
  stateOf (onHost action m) = { m with host := stateOf (action m.host) }
  := by
  rw [onHost_eq]
  cases action m.host with
  | ok a host => rfl
  | error trap host => rfl

theorem onHeap_eq (action : EStateM Trap Heap α) (m : Machine) :
  onHeap action m = match action m.heap with
    | .ok a heap => .ok a (m.withHeap heap)
    | .error trap heap => .error trap (m.withHeap heap)
  := by
  obtain ⟨exe, natives, stack, ⟨heap, output, clock⟩, globals, registers⟩ := m
  simp only [onHeap, onHost, Machine.heap]
  cases action heap with
  | ok a heap => rfl
  | error trap heap => rfl

/-- A collection reclaims what cannot be reached, and crashes if the threshold cannot be raised. -/
theorem collect_eq (m : Machine) :
  collect m
    = if m.heap.threshold + m.heap.increment < 2 ^ 64 then
        .ok (m.heap.reclaim m.roots).1 (m.withHeap
          { (m.heap.reclaim m.roots).2 with threshold := m.heap.threshold + m.heap.increment })
      else .error .crash (m.withHeap (m.heap.reclaim m.roots).2)
  := by
  unfold collect
  rw [onHeap_eq, Heap.collect_eq]
  by_cases fits : m.heap.threshold + m.heap.increment < 2 ^ 64
  · rw [if_pos fits, if_pos fits]
  · rw [if_neg fits, if_neg fits]

/-- A collection changes nothing but the heap. -/
theorem stateOf_collect (m : Machine) :
  ∃ host, stateOf (collect m) = { m with host }
  := by
  rw [collect_eq]
  split
  · exact ⟨_, rfl⟩
  · exact ⟨_, rfl⟩

theorem collectIfDue_eq (m : Machine) :
  collectIfDue m = if m.heap.needsCollection then (collect >>= fun _ => pure ()) m else .ok () m
  := by
  change (if m.heap.needsCollection then (_ : MachineM Unit) else _) m = _
  split
  all_goals rfl

theorem stateOf_collectIfDue (m : Machine) :
  ∃ host, stateOf (collectIfDue m) = { m with host }
  := by
  rw [collectIfDue_eq]
  split
  · obtain ⟨host, ended⟩ := stateOf_collect m
    refine ⟨host, ?_⟩
    rw [stateOf_bind]
    cases ran : collect m with
    | ok count m₁ | error trap m₁ =>
      rw [ran] at ended
      exact ended
  · exact ⟨m.host, rfl⟩

/-- The machine behind an instruction that it is about to execute. -/
def advanced (i : Instruction) (m : Machine) : Machine :=
  { m with registers := { m.registers with opPc := m.registers.pc, pc := i.nextPc } }

/-- A step is a collection, if one is due, and the execution of the instruction at the program
counter, if there is one. -/
theorem step_eq (m : Machine) :
  step m = match collectIfDue m with
    | .error trap m₁ => .error trap m₁
    | .ok () m₁ =>
      if m₁.code.size ≤ m₁.registers.pc then .ok (.finished none) m₁
      else match fetch m₁.code m₁.registers.pc with
        | .error e => .error (.error (.decode e)) m₁
        | .ok i => match execute i (m₁.advanced i) with
          | .error trap m₂ => .error trap m₂
          | .ok none m₂ => .ok .running m₂
          | .ok (some v) m₂ => .ok (.finished (some v)) m₂
  := by
  unfold step
  cases due : collectIfDue m with
  | error trap m₁ => rw [bind_of_error due]
  | ok _ m₁ =>
    rw [bind_of_ok due]
    change (if m₁.code.size ≤ m₁.registers.pc then (_ : MachineM Next) else _) m₁ = _
    dsimp only
    split
    · rfl
    · cases fetch m₁.code m₁.registers.pc with
      | error e => rfl
      | ok i =>
          change (execute i >>= _) (m₁.advanced i) = _
          dsimp only
          cases ran : execute i (m₁.advanced i) with
          | error trap m₂ => rw [bind_of_error ran]
          | ok ended m₂ =>
            rw [bind_of_ok ran]
            cases ended with
            | none => rfl
            | some v => rfl

/-- A step leaves the machine where its collection does, or else its instruction. -/
theorem stateOf_step (m : Machine) :
  stateOf (step m) = stateOf (collectIfDue m)
    ∨ ∃ m₁ i, collectIfDue m = .ok () m₁ ∧ fetch m₁.code m₁.registers.pc = .ok i
      ∧ stateOf (step m) = stateOf (execute i (m₁.advanced i))
  := by
  rw [step_eq]
  cases due : collectIfDue m with
  | error trap m₁ => exact .inl rfl
  | ok _ m₁ =>
    dsimp only
    split
    · exact .inl rfl
    · split
      · exact .inl rfl
      · next i fetched =>
          refine .inr ⟨m₁, i, rfl, fetched, ?_⟩
          split
          all_goals
            next ran =>
              rw [ran]
              rfl

/-- What has happened when a machine goes on after a step. -/
theorem step_eq_ok_running (run : step m = .ok .running m') :
  ∃ m₁ i, collectIfDue m = .ok () m₁ ∧ fetch m₁.code m₁.registers.pc = .ok i
    ∧ execute i (m₁.advanced i) = .ok none m'
  := by
  rw [step_eq] at run
  cases due : collectIfDue m with
  | error trap m₁ =>
    rw [due] at run
    cases run
  | ok _ m₁ =>
    rw [due] at run
    dsimp only at run
    split at run
    · cases run
    · split at run
      · cases run
      · next i fetched =>
          split at run
          · cases run
          · next ran =>
              cases run
              exact ⟨m₁, i, rfl, fetched, ran⟩
          · cases run

theorem eq_of_collectIfDue {m₁ : Machine} (collected : collectIfDue m = .ok () m₁) :
  ∃ host, m₁ = { m with host }
  := by
  obtain ⟨host, same⟩ := stateOf_collectIfDue m
  rw [collected] at same
  exact ⟨host, same⟩

theorem step_eq_running (run : step m = .ok .running m') :
  ∃ host i, fetch m.code m.registers.pc = .ok i
    ∧ execute i ({ m with host }.advanced i) = .ok none m'
  := by
  obtain ⟨m₁, i, collected, fetched, ran⟩ := step_eq_ok_running run
  obtain ⟨host, rfl⟩ := eq_of_collectIfDue collected
  exact ⟨host, i, fetched, ran⟩

end Machine

end Bytecode
