import Mathlib
import Bytecode.Proofs.Machine.Sessions

/-!
# Integrity of the chain of frames

At every instruction boundary of a run the frame of the code that runs is followed down the stack
by those of its callers, `FrameChain`: each has its call record, which names a call of the code of
its caller, and lies above the frame of that. There are no call records besides these.

The next instruction keeps to the operands of its frame and to the variables that it addresses,
`Machine.Confined`: whatever else the cells below the operands hold, it does the same. Only a
return looks at a call record, which is that of its frame, and it succeeds.
-/

namespace Bytecode

open Machine

/-! ### The chain -/

/-- There is a call at the place in the code. -/
def Executable.CallsAt (exe : Executable) (current : Option Nat) (pc : Nat) : Prop :=
  ∃ block, exe.code? current = some block
    ∧ ∃ i ∈ (decode block.code).instructions, i.pc = pc ∧ i.op = .invoke

/-- The frame of a function, or the top level, at a place below a limit, and the frames of its
callers below it. Given are the cells of the call records. -/
inductive FrameChain (exe : Executable) (s : Stack) : Option Nat → Nat → Nat → List Nat → Prop
  /-- The top level has no frame. -/
  | topLevel {limit : Nat} : FrameChain exe s none 0 limit []
  /-- The frame was entered by the host. -/
  | host {index base limit : Nat} {f : Function} {info : CallInfo} :
      exe.functions[index]? = some f → s.callInfo? (base + f.params.length) = some info →
      base + f.params.length + 1 + f.locals.length ≤ limit → info.caller = .host →
      FrameChain exe s (some index) base limit [base + f.params.length]
  /-- The frame was entered by a call of other code, whose frame lies below it. -/
  | call {index base limit : Nat} {f : Function} {info : CallInfo} {current : Option Nat}
      {slots : List Nat} :
      exe.functions[index]? = some f → s.callInfo? (base + f.params.length) = some info →
      base + f.params.length + 1 + f.locals.length ≤ limit → info.caller = callerOf current →
      exe.CallsAt current info.pc → FrameChain exe s current info.base base slots →
      FrameChain exe s (some index) base limit ((base + f.params.length) :: slots)

/-- The frames of a run that was entered with a given stack pointer form a chain, and there are no
other call records. -/
def Machine.FramesIntact (entry : Nat) (m : Machine) : Prop :=
  ∃ slots, FrameChain m.exe m.stack m.registers.current m.registers.base m.stack.sp slots
    ∧ ∀ k info, entry ≤ k → k < m.stack.sp → m.stack.callInfo? k = some info → k ∈ slots

section

variable {p : Program} {exe : Executable} {s : Stack} {entry base : Nat} {current : Option Nat}

theorem CompiledFrom.callsAt (compiled : CompiledFrom p exe) {point : Point}
    (listed : point ∈ p.points current) (invokes : point.op = .invoke) :
  exe.CallsAt current point.pc
  := by
  obtain ⟨block, coded⟩ := compiled.exists_code listed
  obtain ⟨i, decoded, ⟨pc, op, -, -⟩, -⟩ := (compiled.encodes coded).exists_decoded listed
  exact ⟨block, coded, i, decoded, pc, op.trans invokes⟩

theorem Stack.callInfo?_ne_some {k : Nat} (value : s.shape k = some none) (info : CallInfo) :
  s.callInfo? k ≠ some info
  := by
  rw [Ne, callInfo?_eq_some, value]
  simp

/-- The only record of a frame is the one above its parameters. -/
theorem Stack.FrameAt.eq_of_callInfo? {f : Function} {info info' : CallInfo} {k : Nat}
    (frame : s.FrameAt f base info) (from_ : base ≤ k) (below : k < base + f.frameSize)
    (record : s.callInfo? k = some info') :
  k = base + f.params.length
  := by
  by_contra other
  exact Stack.callInfo?_ne_some (frame.value k from_ below other) info' record

/-- Frames that back each other form a chain, and have no other records. -/
theorem Backed.chain (compiled : CompiledFrom p exe)
    (backed : Backed p exe s entry current base) {limit : Nat}
    (room : base + exe.frameSize current ≤ limit) :
  ∃ slots, FrameChain exe s current base limit slots
    ∧ ∀ k info, entry ≤ k → k < base + exe.frameSize current → s.callInfo? k = some info → k ∈ slots
  := by
  induction backed generalizing limit with
  | topLevel =>
    refine ⟨[], .topLevel, ?_⟩
    intro k info _ impossible
    exact absurd impossible (Nat.not_lt_zero k)
  | @host index f info found frame host =>
    rw [Executable.frameSize_eq found] at room ⊢
    have record := Stack.callInfo?_eq_some.2 frame.record
    have size : f.frameSize = f.params.length + 1 + f.locals.length := rfl
    refine ⟨_, .host found record (by omega) host, ?_⟩
    intro k info' from_ below record'
    exact List.mem_singleton.2 (frame.eq_of_callInfo? from_ below record')
  | @call index base f info current point found frame called operands _ ih =>
    rw [Executable.frameSize_eq found] at room ⊢
    have record := Stack.callInfo?_eq_some.2 frame.record
    have size : f.frameSize = f.params.length + 1 + f.locals.length := rfl
    have place := called.pc ▸ compiled.callsAt called.listed called.invokes
    obtain ⟨slots, chain, only⟩ := ih called.le.2
    refine ⟨_, .call found record (by omega) called.caller place chain, ?_⟩
    intro k info' from_ below record'
    by_cases lower : k < base
    · by_cases inCaller : k < info.base + exe.frameSize current
      · exact List.mem_cons_of_mem _ (only k info' from_ inCaller record')
      · exact absurd record' (Stack.callInfo?_ne_some (operands k (by omega) lower) info')
    · rw [frame.eq_of_callInfo? (by omega) below record']
      exact List.mem_cons_self

theorem Machine.Framed.framesIntact {m : Machine} (framed : m.Framed p entry)
    (compiled : CompiledFrom p m.exe) :
  m.FramesIntact entry
  := by
  obtain ⟨vs, holds, -⟩ := framed.operands
  obtain ⟨slots, chain, only⟩ := framed.backed.chain compiled holds.le_sp
  refine ⟨slots, chain, ?_⟩
  intro k info from_ below record
  by_cases inFrame : k < m.operandBase
  · exact only k info from_ inFrame record
  · exact absurd record (Stack.callInfo?_ne_some (holds.shape (by omega) below) info)

end

/-! ### Confinement -/

/-- The number of parameters of the code that runs. -/
def Machine.paramCount (m : Machine) : Nat :=
  ((m.registers.current.bind fun index => m.exe.functions[index]?).map
    fun f => f.params.length).getD 0

/-- The cells below its operands that an instruction uses: the variable that it addresses, or for
a return the call record and the place of the result. -/
def Instruction.addressed (i : Instruction) (m : Machine) : List Nat :=
  match i.op with
  | .pushStack _ | .popStack _ => [m.registers.base + i.number]
  | .ret => [m.registers.base, m.registers.base + m.paramCount]
  | _ => []

/-- The patch changes only cells below the operands that the instruction does not address. -/
def Instruction.Spared (i : Instruction) (m : Machine) (q : Nat → Option Cell) : Prop :=
  ∀ k, q k ≠ none → k < m.operandBase ∧ k ∉ i.addressed m

namespace Instruction.Spared

variable {i : Instruction} {m : Machine} {q : Nat → Option Cell} {k : Nat}

theorem above (spared : i.Spared m q) (from_ : m.operandBase ≤ k) :
  q k = none
  := by
  by_contra touched
  exact absurd (spared k touched).1 (Nat.not_lt.2 from_)

theorem unaddressed (spared : i.Spared m q) (listed : k ∈ i.addressed m) :
  q k = none
  := by
  by_contra touched
  exact (spared k touched).2 listed

end Instruction.Spared

namespace Machine

/-- An instruction keeps to its operands and to the cells that it addresses, which are values; a
return finds its call record. -/
structure Confined (i : Instruction) (m : Machine) : Prop where
  returns : i.op = .ret → ∃ ended m', execute i m = .ok ended m'
  value : i.op ≠ .ret → ∀ k ∈ i.addressed m, ∃ v, m.stack.cells[k]? = some (.value v)
  untouched : ∀ q, i.Spared m q → execute i (m.patched q) = onState (patched q) (execute i m)

section

variable {p : Program} {entry : Nat} {m m' : Machine} {point : Point} {vs : List Value}
  {i : Instruction} {q : Nat → Option Cell}

section

variable (here : m.At p point vs i)
include here

theorem At.plain_patched (reads : i.reads = point.takes) (plain : i.op.isPlain)
    (spared : ∀ k, m.operandBase ≤ k → q k = none) :
  execute i ((m.advanced i).patched q) = onState (patched q) (execute i (m.advanced i))
  := by
  obtain ⟨us, ws, rfl, -, upper⟩ := here.split
  have count : ws.length = i.reads := by rw [upper, reads]
  have top : (m.advanced i).stack.Holds (m.operandBase + us.length) ws := here.holds.upper
  exact execute_plain_patched plain top count fun k above => spared k (by omega)

theorem At.pushStack_patched {kind : SlotKind} {v : Value} (load : i.op = .pushStack kind)
    (found : m.stack.cells[m.registers.base + i.number]? = some (.value v))
    (spared : ∀ k, m.operandBase ≤ k → q k = none) (kept : q (m.registers.base + i.number) = none) :
  execute i ((m.advanced i).patched q) = onState (patched q) (execute i (m.advanced i))
  := by
  have read : (m.advanced i).stack.cells[(m.advanced i).registers.base + i.number]?
      = some (.value v) := found
  have read' : ((m.advanced i).patched q).stack.cells[((m.advanced i).patched q).registers.base
      + i.number]? = some (.value v) := (Stack.getElem?_patched_of_none kept).trans found
  have le := here.holds.le_sp
  rw [execute_pushStack load read, execute_pushStack load read']
  apply bind_onState
  · exact push_patched (m := m.advanced i) (fun k above => spared k (Nat.le_trans le above)) v
  · exact fun _ _ _ => rfl

theorem At.popStack_patched {kind : SlotKind} (store : i.op = .popStack kind)
    (inside : m.registers.base + i.number < m.operandBase)
    (spared : ∀ k, m.operandBase ≤ k → q k = none) (kept : q (m.registers.base + i.number) = none) :
  execute i ((m.advanced i).patched q) = onState (patched q) (execute i (m.advanced i))
  := by
  obtain ⟨us, v, rfl, -⟩ := here.exists_top (by rw [store]; rfl)
  have held : (m.advanced i).stack.Holds m.operandBase (us ++ [v]) := here.holds
  have held' : ((m.advanced i).patched q).stack.Holds m.operandBase (us ++ [v]) :=
    here.holds.patched spared
  have le := here.holds.le_sp
  have fits := here.holds.fits
  have small : (m.advanced i).registers.base + i.number < (m.advanced i).stack.cells.size := by
    change m.registers.base + i.number < m.stack.cells.size
    omega
  have small' : ((m.advanced i).patched q).registers.base + i.number
      < ((m.advanced i).patched q).stack.cells.size := by
    change _ < (m.stack.patched q).cells.size
    rw [Stack.size_patched]
    exact small
  rw [execute_popStack store held small, execute_popStack store held' small']
  have same : ((((m.advanced i).lowered 1).withCell (m.registers.base + i.number) v).patched q)
      = (((m.advanced i).patched q).lowered 1).withCell (m.registers.base + i.number) v := by
    unfold patched withCell
    exact congrArg (fun s => { m.advanced i with stack := s }) (Stack.patched_set kept)
  exact congrArg (EStateM.Result.ok none) same.symm

theorem At.jumpIf_patched (truth : Bool) (jump : i.op = if truth then .jumpIfTrue else .jumpIfFalse)
    (spared : ∀ k, m.operandBase ≤ k → q k = none) :
  execute i ((m.advanced i).patched q) = onState (patched q) (execute i (m.advanced i))
  := by
  obtain ⟨us, v, rfl, -⟩ := here.exists_top (Op.takes_of_condition jump _)
  have held : (m.advanced i).stack.Holds m.operandBase (us ++ [v]) := here.holds
  have held' : ((m.advanced i).patched q).stack.Holds m.operandBase (us ++ [v]) :=
    here.holds.patched spared
  rw [execute_jumpIf jump held, execute_jumpIf jump held', onState_ok]
  split
  all_goals rfl

theorem At.ret_patched (returns : i.op = .ret) {index : Nat} {f : Function} {info : CallInfo}
    (running : m.registers.current = some index) (found : m.exe.functions[index]? = some f)
    (frame : m.stack.FrameAt f m.registers.base info) (spared : ∀ k, m.operandBase ≤ k → q k = none)
    (kept : q m.registers.base = none)
    (keptRecord : q (m.registers.base + f.params.length) = none) :
  execute i ((m.advanced i).patched q) = onState (patched q) (execute i (m.advanced i))
  := by
  obtain ⟨us, v, rfl, -⟩ := here.exists_top (by rw [returns]; rfl)
  let left := (m.advanced i).atPc i.pc
  have held : left.stack.Holds m.operandBase (us ++ [v]) := here.holds
  have held' : (left.patched q).stack.Holds m.operandBase (us ++ [v]) := here.holds.patched spared
  have record := Stack.callInfo?_eq_some.2 frame.record
  have record' : (left.patched q).stack.callInfo? (m.registers.base + f.params.length)
      = some info := by
    have cell := Stack.getElem?_patched_of_none (s := m.stack) keptRecord
    exact Stack.callInfo?_eq_some.2 ((Stack.shape_congr cell).trans frame.record)
  have inside' : m.registers.base < (left.patched q).stack.cells.size := by
    change _ < (m.stack.patched q).cells.size
    rw [Stack.size_patched]
    exact here.base_lt
  have same : (left.returned info v).patched q = (left.patched q).returned info v := by
    unfold returned patched
    exact congrArg (fun s => { left.returned info v with stack := { s with
      sp := m.registers.base + 1 } }) (Stack.patched_set (s := m.stack) kept)
  rw [Machine.execute_ret returns, Machine.execute_ret returns]
  change returnValue (left.patched q) = onState (patched q) (returnValue left)
  rw [returnValue_eq held running found record here.base_lt,
    returnValue_eq held' running found record' inside', onState_ok, same]

theorem At.invoke_patched (call : i.op = .invoke) (linked : m.Linked)
    (fits : m.ArityFits point.args)
    (spared : ∀ k, m.operandBase ≤ k → q k = none) :
  execute i ((m.advanced i).patched q) = onState (patched q) (execute i (m.advanced i))
  := by
  obtain ⟨us, args, v, rfl, count, depth, top⟩ := here.call_operands call
  let site := (m.advanced i).atPc i.pc
  let start := site.lowered 1
  have held : site.stack.Holds m.operandBase (us ++ args ++ [v]) := here.holds
  have held' : (site.patched q).stack.Holds m.operandBase (us ++ args ++ [v]) :=
    here.holds.patched spared
  have left : start.stack.Holds m.operandBase (us ++ args) := held.lowered
  have left' : (start.patched q).stack.Holds m.operandBase (us ++ args) := held'.lowered
  rw [execute_invoke call, execute_invoke call]
  apply bind_onState (g := patched q) (s := site) _ (fun _ _ _ => rfl)
  cases found : m.exe.functions[v.bits.toNat]? with
  | none =>
    rw [invoke_of_none held found, invoke_of_none held' found]
    rfl
  | some f =>
    have params := fits v f top found
    have sp := left.sp_eq
    rw [List.length_append] at sp
    rw [invoke_eq held found, invoke_eq held' found]
    change (if f.isNative then (_ : MachineM Unit) else _) (start.patched q)
      = onState (patched q) ((if f.isNative then (_ : MachineM Unit) else _) start)
    split
    · apply bind_onState (g := patched q) (s := start) _ (fun _ _ _ => rfl)
      cases bound : (m.natives[v.bits.toNat]?).join with
      | none =>
        rw [callNative_of_none (m := start) bound, callNative_of_none (m := start.patched q) bound]
        rfl
      | some native =>
        have arity : args.length = native.arity := by
          rw [linked _ _ _ bound found, count, params]
        have off : OffStack (some <$> onHost (native.run args)) := (OffStack.onHost _).map _
        rw [callNative_eq (m := start) bound left.upper arity,
          callNative_eq (m := start.patched q) bound left'.upper arity]
        exact operate_patched off left.upper (by omega) fun k above => spared k (by omega)
    · exact enterFunction_patched (by omega) left.fits fun k above => spared k (by omega)

end

/-- An instruction that addresses no cell of its frame. -/
theorem Confined.of_unaddressed (noReturn : i.op ≠ .ret) (free : i.addressed m = [])
    (untouched : ∀ q, (∀ k, m.operandBase ≤ k → q k = none) →
      execute i (m.patched q) = onState (patched q) (execute i m)) :
  Confined i m
  where
  returns op := absurd op noReturn
  value _ k listed := by
    rw [free] at listed
    cases listed
  untouched q spared := untouched q fun _ => spared.above

/-- An instruction that addresses one cell of its frame, a value. -/
theorem Confined.of_variable {k : Nat} (noReturn : i.op ≠ .ret) (slot : i.addressed m = [k])
    (value : m.stack.shape k = some none)
    (untouched : ∀ q, (∀ k, m.operandBase ≤ k → q k = none) → q k = none →
      execute i (m.patched q) = onState (patched q) (execute i m)) :
  Confined i m
  where
  returns op := absurd op noReturn
  value _ k' listed := by
    rw [slot, List.mem_singleton] at listed
    rw [listed]
    exact Stack.exists_value_of_shape value
  untouched q spared :=
    untouched q (fun _ => spared.above) (spared.unaddressed (by simp [slot]))

theorem At.confined_ret (here : m.At p point vs i) (framed : m.Framed p entry)
    (compiled : CompiledFrom p m.exe) (returns : i.op = .ret) :
  Confined i (m.advanced i)
  := by
  obtain ⟨index, f, info, running, found, frame, -⟩ := here.exists_frame framed compiled returns
  have count : (m.advanced i).paramCount = f.params.length := by
    simp [paramCount, advanced, running, found]
  have slots : i.addressed (m.advanced i)
      = [m.registers.base, m.registers.base + f.params.length] := by
    simp only [Instruction.addressed, returns, count]
    rfl
  refine ⟨?_, fun noReturn => absurd returns noReturn, ?_⟩
  · intro _
    obtain ⟨v, -, ran⟩ := here.execute_ret returns running found frame
    exact ⟨_, _, ran⟩
  · intro q spared
    have kept : q m.registers.base = none := spared.unaddressed (by simp [slots])
    have keptRecord : q (m.registers.base + f.params.length) = none :=
      spared.unaddressed (by simp [slots])
    exact here.ret_patched returns running found frame (fun _ => spared.above) kept keptRecord

/-- The instruction before a machine whose frames are in order is confined. -/
theorem At.confined (here : m.At p point vs i) (framed : m.Framed p entry)
    (compiled : CompiledFrom p m.exe) (inRange : p.SlotsInRange)
    (fits : i.op = .invoke → m.ArityFits point.args) :
  Confined i (m.advanced i)
  := by
  have proper := compiled.proper inRange here.listed
  have plain (plainOp : i.op.isPlain) (noReturn : i.op ≠ .ret)
      (free : i.addressed (m.advanced i) = []) : Confined i (m.advanced i) :=
    .of_unaddressed noReturn free fun _ =>
      here.plain_patched (here.reads_eq proper plainOp) plainOp
  cases op : i.op with
  | pushStack kind =>
    obtain ⟨-, value⟩ := here.addressed framed compiled inRange (.inl op)
    obtain ⟨v, found⟩ := Stack.exists_value_of_shape value
    refine .of_variable (by simp [op]) (by rw [Instruction.addressed, op]; rfl) value
      fun q above kept => ?_
    exact here.pushStack_patched op found above kept
  | popStack kind =>
    obtain ⟨inside, value⟩ := here.addressed framed compiled inRange (.inr op)
    refine .of_variable (by simp [op]) (by rw [Instruction.addressed, op]; rfl) value
      fun q above kept => ?_
    exact here.popStack_patched op inside above kept
  | jump =>
    refine .of_unaddressed (by simp [op]) (by rw [Instruction.addressed, op]) fun q _ => ?_
    rw [execute_jump op, execute_jump op]
    rfl
  | jumpIfTrue =>
    exact .of_unaddressed (by simp [op]) (by rw [Instruction.addressed, op])
      fun _ => here.jumpIf_patched true op
  | jumpIfFalse =>
    exact .of_unaddressed (by simp [op]) (by rw [Instruction.addressed, op])
      fun _ => here.jumpIf_patched false op
  | invoke =>
    exact .of_unaddressed (by simp [op]) (by rw [Instruction.addressed, op])
      fun _ => here.invoke_patched op framed.linked (fits op)
  | ret => exact here.confined_ret framed compiled op
  | _ => exact plain (by rw [op]; rfl) (by simp [op]) (by rw [Instruction.addressed, op])

end

/-- Frames are intact at every instruction boundary of a run of the top level or of a function
called from the host, and the next instruction is confined, as long as every call is of a function
with as many parameters as there are arguments. -/
theorem framesIntact_of_reaches {p : Program} {exe : Executable} {m₀ start m : Machine}
    {entry : Nat} (compiled : compile p = .ok exe) (inRange : p.SlotsInRange)
    (session : Session exe .any m₀) (enters : m₀.Enters entry start)
    (reaches : Reaches (CallFits p) start m) :
  m.FramesIntact entry
    ∧ (m.CallFits p → ∀ m₁ i, collectIfDue m = .ok () m₁ →
        fetch m₁.code m₁.registers.pc = .ok i → Confined i (m₁.advanced i))
  := by
  have compiled₀ : CompiledFrom p m₀.exe := session.exe_eq ▸ compile_eq_ok compiled
  have program : start.exe = m₀.exe := enters.sameProgram.exe
  have compiled₁ : CompiledFrom p start.exe := program ▸ compiled₀
  have framed : m.Framed p entry :=
    .of_reaches compiled₁ inRange (enters.framed compiled₀ session.linked) reaches
  have compiled₂ : CompiledFrom p m.exe := reaches.sameProgram.exe ▸ compiled₁
  refine ⟨framed.framesIntact compiled₂, ?_⟩
  intro fits m₁ i collected fetched
  obtain ⟨host, rfl⟩ := eq_of_collectIfDue collected
  obtain ⟨point, vs, here, pc⟩ := framed.at_fetched compiled₂ fetched
  exact (here.hosted host).confined (framed.hosted host) compiled₂ inRange fun call =>
    fits point here.listed pc (here.op ▸ call)

/-! ### An instance -/

/-- A program that calls a function which returns its argument. -/
def identityCall : Program where
  functions := [{
    name := "identity", params := [⟨"x", .int⟩], returnType := .int
    body := some [.ret {} (some (.readLocal 0 .int))] }]
  statements := [.expression {} (.callOf (.functionRef 0 .int) [.ofInt 7] .int)]

def identityExecutable : Executable where
  functions := #[{
    name := "identity", package := "", class_ := none, returnType := .int
    params := [⟨"x", .int⟩], locals := []
    code := some ⟨#[8, 0, 0, 79], #[⟨0, 0, 4⟩]⟩ }]
  topLevel := ⟨#[0, 7, 76, 0, 0, 78, 71], #[⟨0, 0, 7⟩]⟩

def identityMachine : Machine :=
  ofStack identityExecutable { initialStackSize := 4, maxStackSize := 8 } 0 (Stack.new 4 8)

/-- After so many instructions. -/
def identityAfter (count : Nat) : Machine := (resume count identityMachine.restart).2

theorem callFits_of_no_call {p : Program} {m : Machine}
    (elsewhere : ∀ point ∈ p.points m.registers.current, point.op = .invoke →
      point.pc ≠ m.registers.pc) :
  m.CallFits p
  := fun point listed pc call => absurd pc (elsewhere point listed call)

theorem reaches_identityAfter :
  Reaches (CallFits identityCall) identityMachine.restart (identityAfter 3)
  := by
  have first : Reaches (CallFits identityCall) identityMachine.restart (identityAfter 1) :=
    .step .refl (callFits_of_no_call (by decide)) rfl
  have second : Reaches (CallFits identityCall) identityMachine.restart (identityAfter 2) :=
    .step first (callFits_of_no_call (by decide)) rfl
  apply second.step _ rfl
  intro point listed pc call v f cell found
  cases cell
  cases found
  revert point
  decide

/-- The third instruction enters the function, whose frame is then intact. -/
theorem framesIntact_identityAfter :
  (identityAfter 3).registers.current = some 0 ∧ (identityAfter 3).FramesIntact 0
  := by
  have compiled : compile identityCall = .ok identityExecutable := by cbv
  have inRange : identityCall.SlotsInRange := by
    intro f listed body bodied slot used
    obtain rfl := List.mem_singleton.1 listed
    cases bodied
    obtain rfl := List.mem_singleton.1 used
    decide
  have made : new? identityExecutable { initialStackSize := 4, maxStackSize := 8 } 0
      = some identityMachine := rfl
  exact ⟨rfl, (framesIntact_of_reaches compiled inRange (.start made) .run
    reaches_identityAfter).1⟩

end Machine

end Bytecode
