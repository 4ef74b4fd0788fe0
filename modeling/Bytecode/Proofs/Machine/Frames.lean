import Mathlib
import Bytecode.Proofs.Generate.Slots
import Bytecode.Proofs.Machine.Calls

/-!
# Frames

A frame has its parameters, a call record, its locals and the operands above them. `Backed` says
that a frame is followed down the stack by the frames of its callers, each of them at the call
that the record above it names, and that all other cells are values. `Framed` adds that the
operands of the topmost frame are as many as planned at the place where the machine is.

A step of a machine keeps `Framed`, provided that a call has as many arguments as its function
has parameters.
-/

namespace Bytecode

/-! ### What cells are -/

namespace Stack

variable {s s' : Stack} {k : Nat}

/-- What a cell is: a value, or a certain call record. -/
def shape (s : Stack) (k : Nat) : Option (Option CallInfo) := (s.cells[k]?).map Cell.info?

theorem shape_of_value {v : Value} (found : s.cells[k]? = some (.value v)) :
  s.shape k = some none
  := by
  rw [shape, found]
  rfl

theorem shape_of_call {info : CallInfo} (found : s.cells[k]? = some (.call info)) :
  s.shape k = some (some info)
  := by
  rw [shape, found]
  rfl

theorem exists_value_of_shape (shape : s.shape k = some none) :
  ∃ v, s.cells[k]? = some (.value v)
  := by
  obtain ⟨cell, found, none⟩ := Option.map_eq_some_iff.1 shape
  cases cell with
  | value v => exact ⟨v, found⟩
  | call info => cases none

theorem callInfo?_eq_some {info : CallInfo} :
  s.callInfo? k = some info ↔ s.shape k = some (some info)
  := by
  unfold callInfo? shape
  cases s.cells[k]? with
  | none => simp
  | some cell =>
    cases cell with
    | value v | call info => simp [Cell.info?]

theorem shape_congr (same : s'.cells[k]? = s.cells[k]?) :
  s'.shape k = s.shape k
  := by
  rw [shape, shape, same]

/-- Writing a value where there is one leaves the shape. -/
theorem shape_set {index : Nat} {v : Value} (value : s.shape index = some none) (k : Nat) :
  { s with cells := s.cells.setIfInBounds index (.value v) }.shape k = s.shape k
  := by
  unfold shape
  rw [Array.getElem?_setIfInBounds]
  split
  · next same =>
      subst same
      obtain ⟨w, found⟩ := exists_value_of_shape value
      rw [found, if_pos (Array.getElem?_eq_some_iff.1 found).1]
      rfl
  · rfl

theorem Holds.shape {low : Nat} {vs : List Value} (h : s.Holds low vs) (from_ : low ≤ k)
    (below : k < s.sp) :
  s.shape k = some none
  := by
  have sp := h.sp_eq
  have found := h.cell (k - low) (vs.get ⟨k - low, by omega⟩) (by simp)
  rw [Nat.add_sub_cancel' from_] at found
  exact shape_of_value found

end Stack

/-! ### Frames -/

/-- The cells of a frame besides its operands. -/
def Function.frameSize (f : Function) : Nat :=
  f.params.length + Frame.recordSize + f.locals.length

/-- The cells of a frame besides its operands. The top level has no others. -/
def Executable.frameSize (exe : Executable) : Option Nat → Nat
  | none => 0
  | some index => ((exe.functions[index]?).map Function.frameSize).getD 0

theorem Executable.frameSize_eq {exe : Executable} {index : Nat} {f : Function}
    (found : exe.functions[index]? = some f) :
  exe.frameSize (some index) = f.frameSize
  := by
  simp [frameSize, found]

/-- There is a frame of a function at a place: a record above the parameters and values
elsewhere. -/
structure Stack.FrameAt (f : Function) (base : Nat) (info : CallInfo) (s : Stack) : Prop where
  record : s.shape (base + f.params.length) = some (some info)
  value : ∀ k, base ≤ k → k < base + f.frameSize → k ≠ base + f.params.length →
    s.shape k = some none

theorem Stack.FrameAt.of_shape {f : Function} {base : Nat} {info : CallInfo} {s s' : Stack}
    (frame : s.FrameAt f base info) (same : ∀ k, k < base + f.frameSize → s'.shape k = s.shape k) :
  s'.FrameAt f base info
  where
  record := by
    rw [same _ (by unfold Function.frameSize Frame.recordSize; omega), frame.record]
  value k from_ below other := by
    rw [same k below, frame.value k from_ below other]

/-- A frame was entered by a planned call of the code of its caller, whose operands below the
arguments are still there. -/
structure CalledFrom (p : Program) (exe : Executable) (f : Function) (base : Nat)
    (info : CallInfo) (current : Option Nat) (point : Point) : Prop where
  caller : info.caller = Machine.callerOf current
  listed : point ∈ p.points current
  invokes : point.op = .invoke
  pc : info.pc = point.pc
  args : f.params.length = point.args
  base : base + (point.args + 1) = info.base + exe.frameSize current + point.depth

theorem CalledFrom.le {p : Program} {exe : Executable} {f : Function} {base : Nat}
    {info : CallInfo} {current : Option Nat} {point : Point}
    (called : CalledFrom p exe f base info current point) :
  point.args + 1 ≤ point.depth ∧ info.base + exe.frameSize current ≤ base
  := by
  have enough := (p.flows_points current point called.listed).1
  have place := called.base
  unfold Directive.takes at enough
  rw [called.invokes] at enough
  change point.args + 1 ≤ point.depth at enough
  omega

/-- The frame of the code that runs, and below it the frames of its callers. Given is the stack
pointer with which the run was entered. -/
inductive Backed (p : Program) (exe : Executable) (s : Stack) (entry : Nat) :
    Option Nat → Nat → Prop
  | topLevel : entry = 0 → Backed p exe s entry none 0
  | host {index : Nat} {f : Function} {info : CallInfo} :
      exe.functions[index]? = some f → s.FrameAt f entry info → info.caller = .host →
      Backed p exe s entry (some index) entry
  | call {index base : Nat} {f : Function} {info : CallInfo} {current : Option Nat}
      {point : Point} :
      exe.functions[index]? = some f → s.FrameAt f base info →
      CalledFrom p exe f base info current point →
      (∀ k, info.base + exe.frameSize current ≤ k → k < base → s.shape k = some none) →
      Backed p exe s entry current info.base → Backed p exe s entry (some index) base

namespace Backed

variable {p : Program} {exe : Executable} {s s' : Stack} {entry base : Nat}
  {current : Option Nat}

/-- Frames depend only on their cells. -/
theorem of_shape (backed : Backed p exe s entry current base)
    (same : ∀ k, k < base + exe.frameSize current → s'.shape k = s.shape k) :
  Backed p exe s' entry current base
  := by
  induction backed with
  | topLevel start => exact .topLevel start
  | host found frame host =>
    rw [Executable.frameSize_eq found] at same
    exact .host found (frame.of_shape same) host
  | @call index base f info current point found frame called operands _ ih =>
    rw [Executable.frameSize_eq found] at same
    have below := called.le.2
    refine .call found (frame.of_shape same) called ?_ (ih ?_)
    · intro k from_ under
      rw [same k (by omega), operands k from_ under]
    · intro k under
      exact same k (by omega)

/-- The frame of a function. -/
theorem frame {index : Nat} (backed : Backed p exe s entry (some index) base) :
  ∃ f info, exe.functions[index]? = some f ∧ s.FrameAt f base info
  := by
  cases backed with
  | host found frame _ | call found frame _ _ _ => exact ⟨_, _, found, frame⟩

/-- All frames lie above the place where the run was entered. -/
theorem entry_le (backed : Backed p exe s entry current base) :
  entry ≤ base
  := by
  induction backed with
  | topLevel start => omega
  | host => exact Nat.le_refl _
  | call _ _ called _ _ ih =>
    have below := called.le.2
    omega

end Backed

/-! ### Entering a frame -/

namespace Stack

variable {s s' : Stack}

theorem Holds.extended {low : Nat} {vs : List Value} (h : s.Holds low vs) :
  (s.lowered vs.length).Extended (vs.map .value) s
  := by
  have sp := h.sp_eq
  have start : (s.lowered vs.length).sp = low := by
    rw [lowered_sp]
    omega
  refine ⟨by rw [start, List.length_map, sp], rfl, fun _ => h.fits, Nat.le_refl _, ?_,
    fun _ _ _ => rfl⟩
  intro k c found
  rw [List.getElem?_map] at found
  obtain ⟨v, listed, rfl⟩ := Option.map_eq_some_iff.1 found
  rw [start]
  exact h.cell k v listed

/-- Arguments, a call record and locals make up a frame without operands. -/
theorem Extended.frameAt {f : Function} {info : CallInfo} {args locals : List Value}
    (extended : s.Extended (args.map .value ++ .call info :: locals.map .value) s')
    (params : args.length = f.params.length) (rest : locals.length = f.locals.length) :
  s'.FrameAt f s.sp info ∧ s'.Holds (s.sp + f.frameSize) []
  := by
  have sp := extended.sp_eq
  have size : f.frameSize = args.length + 1 + locals.length := by
    rw [params, rest]
    rfl
  simp only [List.length_append, List.length_map, List.length_cons] at sp
  refine ⟨⟨?_, ?_⟩, ?_, extended.fits (.inr (by simp)), nofun⟩
  · rw [← params]
    apply shape_of_call
    apply extended.cell
    rw [List.getElem?_append_right (by simp)]
    simp
  · intro k from_ below other
    obtain ⟨j, rfl⟩ : ∃ j, k = s.sp + j := ⟨k - s.sp, by omega⟩
    rcases Nat.lt_trichotomy j args.length with before | here | after
    · apply shape_of_value (v := args[j])
      apply extended.cell
      rw [List.getElem?_append_left (by simpa using before)]
      simp [before]
    · omega
    · obtain ⟨i, rfl⟩ : ∃ i, j = args.length + (i + 1) := ⟨j - args.length - 1, by omega⟩
      have inside : i < locals.length := by omega
      apply shape_of_value (v := locals[i])
      apply extended.cell
      rw [List.getElem?_append_right (by simp)]
      simp [inside]
  · simp
    omega

end Stack

/-! ### Machines in a frame -/

/-- Control may be at the place with so many operands. -/
def Program.Planned (p : Program) (current : Option Nat) (pc depth : Nat) : Prop :=
  Lands (p.points current) pc depth
    ∨ current = none ∧ pc = (p.piece current).size ∧ depth = 0

section

variable {op : Op} {truth : Bool} (jump : op = if truth then .jumpIfTrue else .jumpIfFalse)
include jump

theorem Op.takes_of_condition (args : Nat) :
  op.takes args = 1
  := by
  rw [jump]
  cases truth with
  | true | false => rfl

theorem Op.isJump_of_condition :
  op.isJump
  := by
  rw [jump]
  cases truth with
  | true | false => rfl

end

namespace Machine

/-- The lowest cell of the operands of the frame. -/
def operandBase (m : Machine) : Nat :=
  m.registers.base + m.exe.frameSize m.registers.current

/-- The procedures bound to native functions take as many arguments as the functions. -/
def Linked (m : Machine) : Prop :=
  ∀ (index : Nat) (native : Native) (f : Function), (m.natives[index]?).join = some native →
    m.exe.functions[index]? = some f → native.arity = f.params.length

/-- The stack consists of frames, and the topmost one has the operands planned for the place
where the machine is. -/
structure Framed (p : Program) (entry : Nat) (m : Machine) : Prop where
  linked : m.Linked
  backed : Backed p m.exe m.stack entry m.registers.current m.registers.base
  operands : ∃ vs, m.stack.Holds m.operandBase vs
    ∧ p.Planned m.registers.current m.registers.pc vs.length

/-- The machine has a planned instruction before it, with the operands planned. -/
structure At (p : Program) (point : Point) (vs : List Value) (i : Instruction) (m : Machine) :
    Prop where
  listed : point ∈ p.points m.registers.current
  holds : m.stack.Holds m.operandBase vs
  depth : vs.length = point.depth
  pc : i.pc = point.pc
  op : i.op = point.op
  operand : point.operand.Denotes m.exe.constants i.operand

variable {p : Program} {entry : Nat} {m m' : Machine} {point : Point} {vs : List Value}
  {i : Instruction} {ended : Option Value}
variable {f : Function} {info : CallInfo} {kind : SlotKind} {us args : List Value} {v : Value}
  {index : Nat}

theorem Framed.hosted (framed : m.Framed p entry) (host : Host) :
  { m with host }.Framed p entry
  := ⟨framed.linked, framed.backed, framed.operands⟩

theorem At.hosted (here : m.At p point vs i) (host : Host) :
  { m with host }.At p point vs i
  := ⟨here.listed, here.holds, here.depth, here.pc, here.op, here.operand⟩

/-- What is fetched is the instruction planned. -/
theorem Framed.at_fetched (framed : m.Framed p entry) (compiled : CompiledFrom p m.exe)
    (fetched : fetch m.code m.registers.pc = .ok i) :
  ∃ point vs, m.At p point vs i ∧ point.pc = m.registers.pc
  := by
  obtain ⟨vs, holds, ⟨point, listed, pc, depth⟩ | ⟨top, pc, -⟩⟩ := framed.operands
  · obtain ⟨block, coded⟩ := compiled.exists_code listed
    obtain ⟨operand, planned, denotes, -⟩ := (compiled.encodes coded).fetch_eq_ok listed
    have code : m.code = block.code := by simp [Machine.code, coded]
    rw [code, ← pc, planned] at fetched
    cases fetched
    exact ⟨point, vs, ⟨listed, holds, depth.symm, rfl, rfl, denotes⟩, pc⟩
  · have code : m.code = m.exe.topLevel.code := by simp [Machine.code, top, Executable.code?]
    have size := compiled.topLevel.size_eq
    have inside := nextPc_le_size fetched
    have forward := lt_nextPc i
    rw [fetch_pc fetched, pc, top] at forward
    rw [code, size] at inside
    omega

namespace At

section

variable (here : m.At p point vs i)
include here

theorem number_eq {n : Nat} (operand : point.operand = .number n) :
  i.number = n
  := by
  exact here.operand.number_eq operand

theorem nextPc_eq :
  i.nextPc = point.next
  := by
  unfold Instruction.nextPc Point.next
  rw [here.pc, here.op]

/-- The operands that the instruction takes are on top of the others. -/
theorem split :
  ∃ us ws, vs = us ++ ws ∧ us.length = point.depth - point.takes ∧ ws.length = point.takes
  := by
  have enough := (p.flows_points m.registers.current point here.listed).1
  have depth := here.depth
  refine ⟨vs.take (point.depth - point.takes), vs.drop (point.depth - point.takes),
    (List.take_append_drop ..).symm, ?_, ?_⟩
  · rw [List.length_take]
    omega
  · rw [List.length_drop]
    omega

/-- The operand that an instruction takes, if it takes one. -/
theorem exists_top (takes : i.op.takes point.args = 1) :
  ∃ us v, vs = us ++ [v] ∧ us.length = point.depth - point.takes
  := by
  obtain ⟨us, ws, rfl, lower, upper⟩ := here.split
  rw [here.op] at takes
  obtain ⟨v, rfl⟩ := List.length_eq_one_iff.1 (upper.trans takes)
  exact ⟨us, v, rfl, lower⟩

/-- Where an instruction goes on as planned. -/
theorem planned {pc depth : Nat} (successor : (pc, depth) ∈ point.successors) :
  p.Planned m.registers.current pc depth
  := (p.flows_points m.registers.current point here.listed).2 _ successor

/-- An instruction that neither jumps nor returns goes on behind itself. -/
theorem goesOn (noJump : ¬i.op.isJump) (noReturn : i.op ≠ .ret) :
  p.Planned m.registers.current i.nextPc (point.depth - point.takes + point.leaves)
  := by
  rw [here.op] at noJump noReturn
  apply here.planned
  rw [Point.successors_of_plain (by simpa using noJump) noReturn, here.nextPc_eq]
  exact List.mem_singleton_self _

section

variable {params : Nat} {Allowed : Nat → Prop} (proper : point.toDirective.Proper params Allowed)
include proper

/-- A jump may go where it is planned to. -/
theorem target_mem_successors (jump : i.op.isJump) :
  (i.number, point.depth - point.takes) ∈ point.successors
  := by
  rw [here.op] at jump
  unfold Directive.Proper at proper
  cases op : point.op with
  | jump | jumpIfTrue | jumpIfFalse =>
    rw [op] at proper
    obtain ⟨place, operand⟩ := proper
    rw [here.number_eq operand]
    simp [Point.successors, Point.target, Directive.takes, op, operand, Op.takes]
  | _ =>
    rw [op] at jump
    cases jump

/-- A plain instruction reads the operands that it is planned to take. -/
theorem reads_eq (plain : i.op.isPlain) :
  i.reads = point.takes
  := by
  have sameOp := here.op
  unfold Instruction.reads Directive.takes
  rw [sameOp] at plain ⊢
  cases op : point.op with
  | newArrayLiteral kind =>
    unfold Directive.Proper at proper
    rw [op] at proper
    exact here.number_eq proper
  | invoke =>
    rw [op] at plain
    cases plain
  | _ => rfl

end

/-- A jump on a condition decides by the operand on top. -/
theorem execute_condition {truth : Bool} (jump : i.op = if truth then .jumpIfTrue else .jumpIfFalse) :
  ∃ us v, vs = us ++ [v] ∧ us.length = point.depth - point.takes
    ∧ (i.nextPc, point.depth - point.takes) ∈ point.successors
    ∧ execute i (m.advanced i) = .ok none (if v.toBool == truth
      then ((m.advanced i).lowered 1).atPc i.number else (m.advanced i).lowered 1)
  := by
  obtain ⟨us, v, rfl, lower⟩ := here.exists_top (Op.takes_of_condition jump _)
  refine ⟨us, v, rfl, lower, ?_, execute_jumpIf (m := m.advanced i) jump here.holds⟩
  rw [here.nextPc_eq]
  rw [here.op] at jump
  cases truth with
  | true | false => simp [Point.successors, Directive.takes, jump, Op.takes]

end

end At

/-- The machine has stayed in its frame and kept the frame's cells, up to values, and all cells
below the frame. -/
structure Stays (m m' : Machine) : Prop where
  exe : m'.exe = m.exe
  natives : m'.natives = m.natives
  current : m'.registers.current = m.registers.current
  base : m'.registers.base = m.registers.base
  below : ∀ k, k < m.registers.base → m'.stack.cells[k]? = m.stack.cells[k]?
  shape : ∀ k, k < m.operandBase → m'.stack.shape k = m.stack.shape k

theorem base_le_operandBase (m : Machine) :
  m.registers.base ≤ m.operandBase
  := Nat.le_add_right _ _

/-- The machine has kept all cells below the operands. -/
theorem Stays.of_cells (exe : m'.exe = m.exe) (natives : m'.natives = m.natives)
    (current : m'.registers.current = m.registers.current)
    (base : m'.registers.base = m.registers.base)
    (same : ∀ k, k < m.operandBase → m'.stack.cells[k]? = m.stack.cells[k]?) :
  m.Stays m'
  where
  exe := exe
  natives := natives
  current := current
  base := base
  below k under := same k (Nat.lt_of_lt_of_le under m.base_le_operandBase)
  shape k under := Stack.shape_congr (same k under)

theorem Framed.stays (framed : m.Framed p entry) (stays : m.Stays m')
    (holds : m'.stack.Holds m.operandBase vs)
    (planned : p.Planned m.registers.current m'.registers.pc vs.length) :
  m'.Framed p entry
  where
  linked := by
    unfold Linked
    rw [stays.exe, stays.natives]
    exact framed.linked
  backed := by
    rw [stays.exe, stays.current, stays.base]
    exact framed.backed.of_shape stays.shape
  operands := by
    unfold operandBase
    rw [stays.exe, stays.current, stays.base]
    exact ⟨vs, holds, planned⟩

/-! ### Instructions that stay in the frame -/

section

variable (framed : m.Framed p entry) (here : m.At p point vs i)
include framed here

theorem Framed.plain (reads : i.reads = point.takes) (plain : i.op.isPlain)
    (run : execute i (m.advanced i) = .ok ended m') :
  m.Stays m' ∧ m'.Framed p entry
  := by
  obtain ⟨us, ws, rfl, lower, upper⟩ := here.split
  have holds := here.holds
  have count : ws.length = i.reads := by rw [upper, reads]
  have top : (m.advanced i).stack.Holds (m.operandBase + us.length) ws := holds.upper
  obtain ⟨rfl, result, m₁, computed, rewritten, same⟩ := execute_plain_eq_ok plain top count run
  have length := Instruction.length_of_compute_eq_ok plain computed
  have off := i.offStack_compute ws
  have exe := off.exe ((m.advanced i).lowered i.early)
  have natives := off.natives ((m.advanced i).lowered i.early)
  have registers := off.registers ((m.advanced i).lowered i.early)
  rw [computed] at exe natives registers
  change m₁.exe = m.exe at exe
  change m₁.natives = m.natives at natives
  change m₁.registers = (m.advanced i).registers at registers
  have stays : m.Stays m' := by
    refine .of_cells (by rw [same, exe]) (by rw [same, natives]) ?_ ?_ ?_
    · rw [same, registers]
      rfl
    · rw [same, registers]
      rfl
    · intro k below
      exact rewritten.below k (by omega)
  refine ⟨stays, framed.stays stays (rewritten.joined holds) ?_⟩
  have pc : m'.registers.pc = i.nextPc := by
    rw [same, registers]
    rfl
  have depth : (us ++ (ws.take (ws.length - (i.early + i.late)) ++ result.toList)).length
      = point.depth - point.takes + point.leaves := by
    have leaves : point.leaves = i.op.leaves := by rw [here.op]; rfl
    simp only [List.length_append, List.length_take]
    omega
  rw [pc, depth]
  apply here.goesOn
  · rintro jump
    simp [Op.isPlain, jump] at plain
  · rintro returns
    rw [returns] at plain
    cases plain

section

variable (compiled : CompiledFrom p m.exe)
include compiled

omit framed in
/-- Instructions that need a frame are in functions. -/
theorem At.exists_function (framedOp : i.op.isFramed) :
  ∃ index, m.registers.current = some index
  := by
  have listed := here.listed
  cases running : m.registers.current with
  | some index => exact ⟨index, rfl⟩
  | none =>
    rw [running] at listed
    have frameless := compiled.frameless.of_mem_points listed
    rw [← here.op, framedOp] at frameless
    cases frameless

/-- The slot that an instruction addresses is a parameter or a local of the frame. -/
theorem At.addressed (inRange : p.SlotsInRange)
    (framedOp : i.op = .pushStack kind ∨ i.op = .popStack kind) :
  m.registers.base + i.number < m.operandBase
    ∧ m.stack.shape (m.registers.base + i.number) = some none
  := by
  have proper := compiled.proper inRange here.listed
  have backed := framed.backed
  obtain ⟨index, running⟩ := here.exists_function compiled (by
    rcases framedOp with op | op
    all_goals rw [op, Op.isFramed])
  rw [running] at backed proper
  rw [here.op] at framedOp
  obtain ⟨f, info, found, frame⟩ := backed.frame
  rw [compiled.frame_eq found] at proper
  obtain ⟨slot, allowed, operand⟩ : ∃ slot, slot < f.params.length + f.locals.length
      ∧ point.operand = .number (Frame.slotOffset f.params.length slot) := by
    unfold Directive.Proper at proper
    rcases framedOp with load | store
    · rw [load] at proper
      exact proper
    · rw [store] at proper
      exact proper
  have size : f.frameSize = f.params.length + 1 + f.locals.length := rfl
  have offset : Frame.slotOffset f.params.length slot < f.frameSize
      ∧ Frame.slotOffset f.params.length slot ≠ f.params.length := by
    unfold Frame.slotOffset Frame.recordSize
    split
    all_goals omega
  unfold operandBase
  rw [here.number_eq operand, running, Executable.frameSize_eq found]
  exact ⟨by omega, frame.value _ (by omega) (by omega) (by omega)⟩

/-- A load pushes the value of the slot that it addresses. -/
theorem At.execute_load (inRange : p.SlotsInRange) (load : i.op = .pushStack kind) :
  ∃ v, m.registers.base + i.number < m.operandBase
    ∧ m.stack.cells[m.registers.base + i.number]? = some (.value v)
    ∧ execute i (m.advanced i) = (push v >>= fun _ => pure none) (m.advanced i)
  := by
  obtain ⟨inside, shape⟩ := here.addressed framed compiled inRange (.inl load)
  obtain ⟨v, found⟩ := Stack.exists_value_of_shape shape
  exact ⟨v, inside, found, execute_pushStack (m := m.advanced i) load found⟩

/-- A store writes the operand on top to the slot that it addresses. -/
theorem At.execute_store (inRange : p.SlotsInRange) (store : i.op = .popStack kind) :
  ∃ us v, vs = us ++ [v] ∧ us.length = point.depth - point.takes
    ∧ m.registers.base + i.number < m.operandBase
    ∧ m.stack.shape (m.registers.base + i.number) = some none
    ∧ execute i (m.advanced i)
      = .ok none (((m.advanced i).lowered 1).withCell (m.registers.base + i.number) v)
  := by
  obtain ⟨inside, shape⟩ := here.addressed framed compiled inRange (.inr store)
  obtain ⟨us, v, rfl, lower⟩ := here.exists_top (by rw [store]; rfl)
  have le := here.holds.le_sp
  have fits := here.holds.fits
  have small : m.registers.base + i.number < m.stack.cells.size := by omega
  exact ⟨us, v, rfl, lower, inside, shape,
    execute_popStack (m := m.advanced i) store here.holds small⟩

theorem Framed.pushStack (inRange : p.SlotsInRange) (load : i.op = .pushStack kind)
    (run : execute i (m.advanced i) = .ok ended m') :
  m.Stays m' ∧ m'.Framed p entry
  := by
  obtain ⟨v, -, -, executed⟩ := here.execute_load framed compiled inRange load
  rw [executed] at run
  obtain ⟨_, m₁, run₁, rest₁⟩ := bind_eq_ok.1 run
  obtain ⟨rfl, rfl⟩ := pure_eq_ok.1 rest₁
  obtain ⟨s, pushed, rfl⟩ := onStack_eq_ok run₁
  have goesOn := here.goesOn (by simp [load, Op.isJump]) (by simp [load])
  have depth : (vs ++ [v]).length = point.depth - point.takes + point.leaves := by
    simp [Directive.takes, Directive.leaves, ← here.op, load, Op.takes, Op.leaves, here.depth]
  have held := here.holds
  have le := held.le_sp
  have fits := held.fits
  have stays : m.Stays { m.advanced i with stack := s } := by
    refine .of_cells rfl rfl rfl rfl ?_
    intro k below
    have others : ∀ k, k ≠ m.stack.sp → k < m.stack.cells.size → s.cells[k]? = m.stack.cells[k]? :=
      (Stack.pushCell_eq_ok pushed).others
    exact others k (by omega) (by omega)
  rw [← depth] at goesOn
  exact ⟨stays, framed.stays stays (held.push pushed) goesOn⟩

theorem Framed.popStack (inRange : p.SlotsInRange) (store : i.op = .popStack kind)
    (run : execute i (m.advanced i) = .ok ended m') :
  m.Stays m' ∧ m'.Framed p entry
  := by
  obtain ⟨us, v, rfl, lower, inside, shape, executed⟩ :=
    here.execute_store framed compiled inRange store
  rw [executed] at run
  cases run
  have goesOn := here.goesOn (by simp [store, Op.isJump]) (by simp [store])
  have depth : us.length = point.depth - point.takes + point.leaves := by
    simp [lower, Directive.leaves, ← here.op, store, Op.leaves]
  have left : ((m.advanced i).lowered 1).stack.Holds m.operandBase us := here.holds.lowered
  have stays : m.Stays (((m.advanced i).lowered 1).withCell (m.registers.base + i.number) v) := by
    refine ⟨rfl, rfl, rfl, rfl, ?_, fun k _ => Stack.shape_set shape k⟩
    intro k below
    exact Array.getElem?_setIfInBounds_ne (by omega)
  rw [← depth] at goesOn
  exact ⟨stays, framed.stays stays (left.set_below inside) goesOn⟩

/-- The frame that a return leaves. -/
theorem At.exists_frame (returns : i.op = .ret) :
  ∃ index f info, m.registers.current = some index ∧ m.exe.functions[index]? = some f
    ∧ m.stack.FrameAt f m.registers.base info ∧ m.operandBase = m.registers.base + f.frameSize
  := by
  obtain ⟨index, running⟩ := here.exists_function compiled (by rw [returns, Op.isFramed])
  have backed := framed.backed
  rw [running] at backed
  obtain ⟨f, info, found, frame⟩ := backed.frame
  refine ⟨index, f, info, running, found, frame, ?_⟩
  rw [operandBase, running, Executable.frameSize_eq found]

end

theorem Framed.jump {params : Nat} {Allowed : Nat → Prop}
    (proper : point.toDirective.Proper params Allowed) (jump : i.op = .jump)
    (run : execute i (m.advanced i) = .ok ended m') :
  m.Stays m' ∧ m'.Framed p entry
  := by
  rw [execute_jump jump] at run
  cases run
  have planned := here.planned (here.target_mem_successors proper (by rw [jump]; rfl))
  rw [Directive.takes, ← here.op, jump, ← here.depth] at planned
  have stays : m.Stays ((m.advanced i).atPc i.number) := .of_cells rfl rfl rfl rfl fun _ _ => rfl
  exact ⟨stays, framed.stays stays here.holds planned⟩

theorem Framed.jumpIf {params : Nat} {Allowed : Nat → Prop}
    (proper : point.toDirective.Proper params Allowed) (truth : Bool)
    (jump : i.op = if truth then .jumpIfTrue else .jumpIfFalse)
    (run : execute i (m.advanced i) = .ok ended m') :
  m.Stays m' ∧ m'.Framed p entry
  := by
  obtain ⟨us, v, rfl, lower, next, executed⟩ := here.execute_condition jump
  have target := here.target_mem_successors proper (Op.isJump_of_condition jump)
  have left : ((m.advanced i).lowered 1).stack.Holds m.operandBase us := here.holds.lowered
  rw [← lower] at next target
  rw [executed] at run
  split at run
  · cases run
    have stays : m.Stays (((m.advanced i).lowered 1).atPc i.number) :=
      .of_cells rfl rfl rfl rfl fun _ _ => rfl
    exact ⟨stays, framed.stays stays left (here.planned target)⟩
  · cases run
    have stays : m.Stays ((m.advanced i).lowered 1) := .of_cells rfl rfl rfl rfl fun _ _ => rfl
    exact ⟨stays, framed.stays stays left (here.planned next)⟩

end

/-! ### Returns -/

theorem At.base_lt (here : m.At p point (us ++ [v]) i) :
  m.registers.base < m.stack.cells.size
  := by
  have sp := here.holds.sp_eq
  have fits := here.holds.fits
  unfold operandBase at sp
  rw [List.length_append, List.length_singleton] at sp
  omega

/-- A return succeeds: the frame has its record. -/
theorem At.execute_ret_eq (here : m.At p point (us ++ [v]) i) (returns : i.op = .ret)
    (running : m.registers.current = some index) (found : m.exe.functions[index]? = some f)
    (frame : m.stack.FrameAt f m.registers.base info) :
  execute i (m.advanced i)
    = .ok (if info.caller = .host then some v else none)
        (((m.advanced i).atPc i.pc).returned info v)
  := by
  have held : ((m.advanced i).atPc i.pc).stack.Holds m.operandBase (us ++ [v]) := here.holds
  have record := Stack.callInfo?_eq_some.2 frame.record
  rw [Machine.execute_ret returns]
  exact returnValue_eq held running found record here.base_lt

theorem At.execute_ret (here : m.At p point vs i) (returns : i.op = .ret)
    (running : m.registers.current = some index) (found : m.exe.functions[index]? = some f)
    (frame : m.stack.FrameAt f m.registers.base info) :
  ∃ v ∈ vs, execute i (m.advanced i)
    = .ok (if info.caller = .host then some v else none)
        (((m.advanced i).atPc i.pc).returned info v)
  := by
  obtain ⟨us, v, rfl, -⟩ := here.exists_top (by rw [returns]; rfl)
  exact ⟨v, by simp, here.execute_ret_eq returns running found frame⟩

theorem returned_current {current : Option Nat} (caller : info.caller = callerOf current)
    (v : Value) (m : Machine) :
  (m.returned info v).registers.current = current
  := by
  unfold returned
  rw [caller]
  cases current with
  | none => rfl
  | some index => rfl

/-- A return to a caller leaves the caller's frame with the result as an operand. -/
theorem Framed.returned {current : Option Nat} {call : Point} (linked : m.Linked)
    (frame : m.stack.FrameAt f m.registers.base info)
    (called : CalledFrom p m.exe f m.registers.base info current call)
    (operands : ∀ k, info.base + m.exe.frameSize current ≤ k → k < m.registers.base →
      m.stack.shape k = some none) (backed : Backed p m.exe m.stack entry current info.base)
    (v : Value) :
  (m.returned info v).Framed p entry
  := by
  have below := called.le
  have placed := called.base
  have inside : m.registers.base + f.params.length < m.stack.cells.size := by
    obtain ⟨cell, there, -⟩ := Option.map_eq_some_iff.1 frame.record
    exact (Array.getElem?_eq_some_iff.1 there).1
  let dropped : Stack := { m.stack with sp := m.registers.base }
  obtain ⟨us, length, held⟩ : ∃ us, us.length = dropped.sp - (info.base + m.exe.frameSize current)
      ∧ dropped.Holds (info.base + m.exe.frameSize current) us := by
    apply Stack.exists_holds below.2
    · change m.registers.base ≤ m.stack.cells.size
      omega
    · intro k from_ under
      exact Stack.exists_value_of_shape (operands k from_ under)
  have pushed : Stack.push v dropped = .ok () (m.returned info v).stack :=
    Stack.pushCell_eq_of_lt (Nat.lt_of_le_of_lt (Nat.le_add_right _ _) inside)
  refine ⟨linked, ?_, us ++ [v], ?_, ?_⟩
  · rw [returned_current called.caller]
    apply backed.of_shape
    intro k under
    have other : m.registers.base ≠ k := by
      change k < info.base + m.exe.frameSize current at under
      omega
    exact Stack.shape_congr (Array.getElem?_setIfInBounds_ne other)
  · unfold operandBase
    rw [returned_current called.caller]
    exact held.push pushed
  · rw [returned_current called.caller]
    apply (p.flows_points current call called.listed).2 (info.pc + 1, (us ++ [v]).length)
    have depth : (us ++ [v]).length = call.depth - call.takes + call.leaves := by
      have takes : call.takes = call.args + 1 := by simp [Directive.takes, called.invokes, Op.takes]
      have leaves : call.leaves = 1 := by simp [Directive.leaves, called.invokes, Op.leaves]
      rw [List.length_append, List.length_singleton, length, takes, leaves]
      change m.registers.base - _ + 1 = _
      omega
    have next : info.pc + 1 = call.next := by
      rw [called.pc, Point.next, called.invokes]
      rfl
    rw [Point.successors_of_plain (by rw [called.invokes]; rfl) (by rw [called.invokes]; decide),
      depth, next]
    exact List.mem_singleton_self _

theorem Framed.ret (framed : m.Framed p entry) (here : m.At p point vs i)
    (compiled : CompiledFrom p m.exe) (returns : i.op = .ret)
    (run : execute i (m.advanced i) = .ok none m') :
  m'.Framed p entry
  := by
  have backed := framed.backed
  obtain ⟨index, running⟩ := here.exists_function compiled (by rw [returns, Op.isFramed])
  rw [running] at backed
  generalize placed : m.registers.base = base at backed
  cases backed with
  | host found frame host =>
    obtain ⟨v, -, ran⟩ := here.execute_ret returns running found (placed ▸ frame)
    rw [ran, if_pos host] at run
    cases run
  | @call _ _ f info caller call found frame called operands backed =>
    subst placed
    obtain ⟨v, -, ran⟩ := here.execute_ret returns running found frame
    have goesOn : info.caller ≠ .host := by
      rw [called.caller]
      cases caller with
      | none | some index => exact Caller.noConfusion
    rw [ran, if_neg goesOn] at run
    cases run
    let left := (m.advanced i).atPc i.pc
    exact Framed.returned (m := left) framed.linked frame called operands backed v

/-! ### Calls -/

/-- The function on top, if there is one, has so many parameters. -/
abbrev ArityFits (m : Machine) (args : Nat) : Prop :=
  ∀ v f, m.stack.cells[m.stack.sp - 1]? = some (.value v) →
    m.exe.functions[v.bits.toNat]? = some f → f.params.length = args

/-- The call before the machine, if there is one, is of a function with as many parameters as
there are arguments. -/
def CallFits (p : Program) (m : Machine) : Prop :=
  ∀ point ∈ p.points m.registers.current, point.pc = m.registers.pc → point.op = .invoke →
    ∀ v f, m.stack.cells[m.stack.sp - 1]? = some (.value v) →
      m.exe.functions[v.bits.toNat]? = some f → f.params.length = point.args

/-- The operands of a call: others, the arguments and the index of the function. -/
theorem At.call_operands (here : m.At p point vs i) (call : i.op = .invoke) :
  ∃ us args v, vs = us ++ args ++ [v] ∧ args.length = point.args
    ∧ us.length + (point.args + 1) = point.depth
    ∧ m.stack.cells[m.stack.sp - 1]? = some (.value v)
  := by
  obtain ⟨us, ws, rfl, lower, upper⟩ := here.split
  have takes : point.takes = point.args + 1 := by
    simp [Directive.takes, ← here.op, call, Op.takes]
  have depth := here.depth
  rw [takes] at upper
  have nonempty : ws ≠ [] := List.ne_nil_of_length_pos (by omega)
  have whole : ws = ws.dropLast ++ [ws.getLast nonempty] :=
    (List.dropLast_append_getLast nonempty).symm
  rw [List.length_append] at depth
  refine ⟨us, ws.dropLast, ws.getLast nonempty, ?_, by simp [upper], by omega, ?_⟩
  · rw [List.append_assoc, ← whole]
  · have sp := here.holds.sp_eq
    have cell := here.holds.cell (us.length + ws.dropLast.length) (ws.getLast nonempty) (by
      rw [List.getElem?_append_right (by omega), Nat.add_sub_cancel_left]
      nth_rewrite 1 [whole]
      simp)
    rw [List.length_append] at sp
    rw [List.length_dropLast] at cell
    rwa [show m.stack.sp - 1 = m.operandBase + (us.length + (ws.length - 1)) by omega]

/-- A call that succeeds is of a native function, or enters one with code. -/
theorem At.execute_invoke_eq_ok (here : m.At p point vs i) (call : i.op = .invoke)
    (run : execute i (m.advanced i) = .ok ended m') :
  ∃ us args v f, vs = us ++ args ++ [v] ∧ args.length = point.args
    ∧ us.length + (point.args + 1) = point.depth ∧ ended = none
    ∧ m.stack.cells[m.stack.sp - 1]? = some (.value v) ∧ m.exe.functions[v.bits.toNat]? = some f
    ∧ ((f.isNative ∧ ∃ m₁, callNative v.bits.toNat f (((m.advanced i).atPc i.pc).lowered 1) = .ok () m₁
        ∧ m' = { m₁ with registers := { m₁.registers with pc := m₁.registers.pc + 1 } })
      ∨ f.isNative = false ∧ enterFunction v.bits.toNat f (callerOf m.registers.current)
        (((m.advanced i).atPc i.pc).lowered 1) = .ok () m')
  := by
  obtain ⟨us, args, v, rfl, count, depth, top⟩ := here.call_operands call
  have held : ((m.advanced i).atPc i.pc).stack.Holds m.operandBase (us ++ args ++ [v]) := here.holds
  rw [execute_invoke call] at run
  obtain ⟨_, m₁, run₁, rest₁⟩ := bind_eq_ok.1 run
  obtain ⟨rfl, rfl⟩ := pure_eq_ok.1 rest₁
  cases found : m.exe.functions[v.bits.toNat]? with
  | none =>
    rw [invoke_of_none held found] at run₁
    cases run₁
  | some f =>
    refine ⟨us, args, v, f, rfl, count, depth, rfl, top, found, ?_⟩
    rw [invoke_eq held found] at run₁
    split at run₁
    · next native =>
        obtain ⟨_, m₂, run₂, rest₂⟩ := bind_eq_ok.1 run₁
        cases rest₂
        exact .inl ⟨native, m₂, run₂, rfl⟩
    · next code => exact .inr ⟨by simpa using code, run₁⟩

/-- A native function replaces its arguments by what its procedure makes of them; nothing else but
the host has changed. -/
theorem callNative_eq_ok {low : Nat} (linked : m.Linked)
    (found : m.exe.functions[index]? = some f) (held : m.stack.Holds low args)
    (count : args.length = f.params.length) (run : callNative index f m = .ok () m') :
  ∃ native r, (m.natives[index]?).join = some native ∧ native.run args m.host = .ok r m'.host
    ∧ m.stack.Rewritten low [r] m'.stack ∧ m' = { m with stack := m'.stack, host := m'.host }
  := by
  cases bound : (m.natives[index]?).join with
  | none =>
    rw [callNative_of_none bound] at run
    cases run
  | some native =>
    have arity : args.length = native.arity := by rw [linked _ _ _ bound found, count]
    rw [callNative_eq bound held arity] at run
    obtain ⟨result, m₁, computed, rewritten, same⟩ :=
      operate_eq_ok ((OffStack.onHost _).map _) held (by omega) run
    obtain ⟨r, called, rfl⟩ := map_eq_ok.1 computed
    obtain ⟨host, ran, rfl⟩ := onHost_eq_ok called
    rw [Nat.zero_add, Nat.sub_self, List.take_zero, List.nil_append] at rewritten
    refine ⟨native, r, rfl, ?_, rewritten, ?_⟩
    · rw [same]
      exact ran
    · rw [same]
      rfl

theorem Framed.callNative (framed : m.Framed p entry) (here : m.At p point (us ++ args ++ [v]) i)
    (call : i.op = .invoke) (found : m.exe.functions[v.bits.toNat]? = some f)
    (count : args.length = point.args) (fits : f.params.length = point.args)
    (depth : us.length + (point.args + 1) = point.depth)
    (run : Machine.callNative v.bits.toNat f (((m.advanced i).atPc i.pc).lowered 1) = .ok () m') :
  m.Stays { m' with registers := { m'.registers with pc := m'.registers.pc + 1 } }
    ∧ { m' with registers := { m'.registers with pc := m'.registers.pc + 1 } }.Framed p entry
  := by
  let start := ((m.advanced i).atPc i.pc).lowered 1
  have held : start.stack.Holds m.operandBase (us ++ args) := here.holds.lowered
  obtain ⟨-, r, -, -, rewritten, same⟩ :=
    callNative_eq_ok (m := start) framed.linked found held.upper (by omega) run
  have pc : m'.registers.pc + 1 = i.nextPc := by
    rw [same, here.nextPc_eq, Point.next, ← here.op, call, ← here.pc]
    rfl
  have length : (us ++ [r]).length = point.depth - point.takes + point.leaves := by
    simp only [Directive.takes, Directive.leaves, ← here.op, call, Op.takes, Op.leaves,
      List.length_append, List.length_singleton]
    omega
  have stays : m.Stays { m' with registers := { m'.registers with pc := m'.registers.pc + 1 } } := by
    refine .of_cells ?_ ?_ ?_ ?_ ?_
    · rw [same]
      rfl
    · rw [same]
      rfl
    · rw [same]
      rfl
    · rw [same]
      rfl
    · intro k below
      exact rewritten.below k (by omega)
  refine ⟨stays, framed.stays stays (rewritten.joined held) ?_⟩
  change p.Planned _ (m'.registers.pc + 1) _
  rw [pc, length]
  exact here.goesOn (by simp [call, Op.isJump]) (by simp [call])

theorem Framed.enterFunction (framed : m.Framed p entry)
    (here : m.At p point (us ++ args ++ [v]) i) (compiled : CompiledFrom p m.exe)
    (call : i.op = .invoke) (found : m.exe.functions[v.bits.toNat]? = some f)
    (code : f.isNative = false) (count : args.length = point.args)
    (fits : f.params.length = point.args) (depth : us.length + (point.args + 1) = point.depth)
    (run : Machine.enterFunction v.bits.toNat f (callerOf m.registers.current)
      (((m.advanced i).atPc i.pc).lowered 1) = .ok () m') :
  m'.Framed p entry
  := by
  let start := ((m.advanced i).atPc i.pc).lowered 1
  have held : start.stack.Holds m.operandBase (us ++ args) := here.holds.lowered
  change Machine.enterFunction _ f _ start = _ at run
  have sp := held.sp_eq
  rw [List.length_append] at sp
  obtain ⟨⟨locals, length, extended⟩, same⟩ := enterFunction_eq_ok (by omega) run
  have base : start.stack.sp - f.params.length = m.operandBase + us.length := by omega
  have low : (start.stack.lowered args.length).sp = m.operandBase + us.length := by
    rw [Stack.lowered_sp]
    omega
  obtain ⟨frame, empty⟩ := (held.upper.extended.trans extended).frameAt (by omega) length
  rw [low] at frame empty
  rw [base] at same
  have kept : ∀ k, k < m.operandBase + us.length → m'.stack.shape k = m.stack.shape k := by
    intro k under
    have inside := held.fits
    exact Stack.shape_congr (extended.below k (by omega) (by omega))
  have called : CalledFrom p m.exe f (m.operandBase + us.length)
      ⟨callerOf m.registers.current, i.pc, m.registers.base⟩ m.registers.current point := by
    refine ⟨rfl, here.listed, here.op ▸ call, here.pc, fits, ?_⟩
    change m.operandBase + us.length + (point.args + 1) = m.operandBase + point.depth
    omega
  rw [same]
  refine ⟨framed.linked, ?_, [], ?_, ?_⟩
  · refine .call found frame called ?_ (framed.backed.of_shape ?_)
    · intro k from_ under
      change k < m.operandBase + us.length at under
      rw [kept k under]
      exact held.shape from_ (by omega)
    · intro k under
      change k < m.operandBase at under
      exact kept k (by omega)
  · have size := Executable.frameSize_eq found
    change m'.stack.Holds (m.operandBase + us.length + m.exe.frameSize (some v.bits.toNat)) []
    rwa [size]
  · exact .inl (compiled.lands_points found code)

theorem Framed.invoke (framed : m.Framed p entry) (here : m.At p point vs i)
    (compiled : CompiledFrom p m.exe) (call : i.op = .invoke)
    (fits : m.ArityFits point.args)
    (run : execute i (m.advanced i) = .ok ended m') :
  ended = none ∧ m'.Framed p entry
  := by
  obtain ⟨us, args, v, f, rfl, count, depth, rfl, top, found, ⟨-, m₁, ran, rfl⟩ | ⟨code, ran⟩⟩ :=
    here.execute_invoke_eq_ok call run
  · exact ⟨rfl, (framed.callNative here call found count (fits v f top found) depth ran).2⟩
  · exact ⟨rfl, framed.enterFunction here compiled call found code count (fits v f top found)
      depth ran⟩

/-! ### Runs -/

/-- An instruction keeps the frames in order. -/
theorem Framed.execute (framed : m.Framed p entry) (here : m.At p point vs i)
    (compiled : CompiledFrom p m.exe) (inRange : p.SlotsInRange)
    (fits : i.op = .invoke → m.ArityFits point.args)
    (run : Machine.execute i (m.advanced i) = .ok none m') :
  m'.Framed p entry
  := by
  have proper := compiled.proper inRange here.listed
  have plain (plainOp : i.op.isPlain) : m'.Framed p entry :=
    (framed.plain here (here.reads_eq proper plainOp) plainOp run).2
  cases op : i.op with
  | pushStack kind => exact (framed.pushStack here compiled inRange op run).2
  | popStack kind => exact (framed.popStack here compiled inRange op run).2
  | jump => exact (framed.jump here proper op run).2
  | jumpIfTrue => exact (framed.jumpIf here proper true op run).2
  | jumpIfFalse => exact (framed.jumpIf here proper false op run).2
  | invoke => exact (framed.invoke here compiled op (fits op) run).2
  | ret => exact framed.ret here compiled op run
  | _ => exact plain (by rw [op]; rfl)

/-- A step keeps the frames in order. -/
theorem Framed.step (framed : m.Framed p entry) (compiled : CompiledFrom p m.exe)
    (inRange : p.SlotsInRange) (fits : m.CallFits p) (run : Machine.step m = .ok .running m') :
  m'.Framed p entry
  := by
  obtain ⟨host, i, fetched, ran⟩ := step_eq_running run
  obtain ⟨point, vs, here, pc⟩ := framed.at_fetched compiled fetched
  apply (framed.hosted host).execute (here.hosted host) compiled inRange _ ran
  intro call
  exact fits point here.listed pc (here.op ▸ call)

end Machine

end Bytecode
