import Mathlib
import Bytecode.Proofs.Semantics.Simulation

/-!
# Steps of a machine that mirrors a store

What one step does with a machine that mirrors a store and has a planned instruction before it,
for every instruction that the code of whole numbers consists of. Each lemma says which operands
and which store are mirrored after the step.
-/

namespace Bytecode

open Machine

/-! ### Numbers as values -/

theorem Value.ofNat_toNat_toInt {v : Int64} (nonneg : 0 ≤ v.toInt) :
  Value.ofNat v.toInt.toNat = .ofInt v
  := by
  have same : Int64.ofNat v.toInt.toNat = v := by
    rw [← Int64.ofInt_eq_ofNat, Int.toNat_of_nonneg nonneg, Int64.ofInt_toInt]
  unfold Value.ofNat Value.ofInt
  nth_rewrite 2 [← same]
  rw [Int64.toUInt64_ofNat']

/-- A number of two bytes with a sign is read back from its operand. -/
theorem toInt64_operandWord {v : Int64} (lower : -32768 ≤ v.toInt) (upper : v.toInt < 32768) :
  (operandWord v.toInt).toInt16.toInt64 = v
  := by
  have encoded : (operandWord v.toInt).toInt16 = Int16.ofNat (v.toInt % 65536).toNat :=
    UInt16.toInt16_ofNat'
  apply Int64.toInt_inj.1
  rw [Int16.toInt_toInt64, encoded, Int16.toInt_ofNat', Int.toNat_of_nonneg (by omega)]
  change (v.toInt % ((65536 : Nat) : Int)).bmod 65536 = _
  rw [Int.emod_bmod, Int.bmod_eq_of_le (by omega) (by omega)]

theorem Value.ofBool_eq (b : Bool) :
  Value.ofBool b = .ofInt (truth b)
  := by
  cases b
  all_goals rfl

@[simp] theorem Value.toInt_ofInt (v : Int64) :
  (Value.ofInt v).toInt = v
  := Int64.toInt64_toUInt64 v

@[simp] theorem Value.toBool_ofInt (v : Int64) :
  (Value.ofInt v).toBool = decide (v ≠ 0)
  := by
  by_cases zero : v = 0
  · subst zero
    rfl
  · have nonzero : v.toUInt64 ≠ 0 := by
      intro none
      apply zero
      rw [← Int64.toInt64_toUInt64 v, none]
      rfl
    simpa [Value.toBool, Value.bits, Value.ofInt, zero] using nonzero

/-- What a `return` without a value yields in a function of whole numbers is zero. -/
theorem Directive.default_eq {ty : Ty} (scalar : ty.isScalar) :
  Directive.default ty = .bool false
  := by
  cases ty with
  | void | boolean | int => rfl
  | _ => cases scalar

theorem Store.getElem?_words {store : Store} {index : Nat} {v : Int64}
    (found : store.globals[index]? = some v) :
  store.words[index]? = some (.ofInt v)
  := by
  simp [Store.words, found]

/-! ### Fetching -/

/-- A fault at a planned instruction is reported with the function and the line. -/
theorem CompiledFrom.locate_eq {p : Program} {exe : Executable} (compiled : CompiledFrom p exe)
    {current : Option Nat} {point : Point} (listed : point ∈ p.points current) {m : Machine}
    (sameExe : m.exe = exe) (running : m.registers.current = current)
    (last : m.registers.opPc = point.pc) (f : Fault) :
  m.locate f = some ⟨f, p.nameOf current, point.line⟩
  := by
  subst sameExe running
  obtain ⟨block, coded⟩ := compiled.exists_code listed
  have encodes := compiled.encodes coded
  obtain ⟨_, -, -, line⟩ := encodes.fetch_eq_ok listed
  have small := encodes.size_le
  have fits : tryLineAt block.lines point.pc = some (some point.line) := by
    unfold maxCodeSize at small
    unfold tryLineAt
    rw [if_pos (encodes.tiles.lookupFits (by omega)), line]
  unfold locate
  rw [coded]
  dsimp only
  rw [last, fits]
  cases running : m.registers.current with
  | none => rfl
  | some index =>
    rw [running] at coded
    obtain ⟨g, found, -⟩ := Option.bind_eq_some_iff.1 coded
    obtain ⟨f, declared, fromDecl⟩ := compiled.function_of_getElem? found
    simp [Program.nameOf, found, declared, Function.qualifiedName, fromDecl.name,
      fromDecl.package]

namespace Setting

variable {s : Setting} {a : Activation} {pc : Nat} {point : Point} {i : Instruction}
  {vs : List Int64} {store : Store} {m m' : Machine}

/-- The instruction before the machine is the one planned, and the step executes it. -/
structure Fetches (s : Setting) (point : Point) (m : Machine) (i : Instruction) : Prop where
  pc : i.pc = point.pc
  op : i.op = point.op
  operand : point.operand.Denotes s.exe.constants i.operand
  opPc : m.registers.pc = point.pc
  ok : ∀ m', execute i (m.advanced i) = .ok none m' → step m = .ok .running m'
  error : ∀ trap m', execute i (m.advanced i) = .error trap m' → step m = .error trap m'

/-- There is nothing to collect. -/
theorem Mirrors.collectIfDue_eq (here : s.Mirrors a pc vs store m) :
  collectIfDue m = .ok () m
  := by
  have none := s.idle
  rw [← here.host] at none
  rw [Machine.collectIfDue_eq, if_neg (by simpa [Machine.heap] using none)]

theorem Mirrors.exists_fetches (here : s.Mirrors a point.pc vs store m)
    (listed : point ∈ s.program.points a.current) :
  ∃ i, s.Fetches point m i
  := by
  obtain ⟨block, coded⟩ := s.compiled.exists_code listed
  obtain ⟨operand, fetched, denotes, -⟩ := (s.compiled.encodes coded).fetch_eq_ok listed
  have code : m.code = block.code := by simp [Machine.code, here.exe, here.current, coded]
  have inside := nextPc_le_size fetched
  have forward := lt_nextPc ⟨point.pc, point.op, operand⟩
  have stepped := step_eq m
  rw [here.collectIfDue_eq] at stepped
  simp only [code, here.pc] at stepped
  rw [if_neg (by dsimp only at forward; omega), fetched] at stepped
  refine ⟨⟨point.pc, point.op, operand⟩, rfl, rfl, denotes, here.pc, ?_, ?_⟩
  · intro m' executed
    rw [stepped]
    simp only [executed]
  · intro trap m' executed
    rw [stepped]
    simp only [executed]

theorem Fetches.nextPc_eq (fetches : s.Fetches point m i) :
  i.nextPc = point.next
  := by
  unfold Instruction.nextPc Point.next
  rw [fetches.pc, fetches.op]

theorem Fetches.number_eq (fetches : s.Fetches point m i) {n : Nat}
    (operand : point.operand = .number n) :
  i.number = n
  := fetches.operand.number_eq operand

/-- A step that fails for want of cells exhausts the stack. -/
theorem exhausts_of_refuses (listed : point ∈ s.program.points a.current) {trap : Trap} {required : Nat}
    (stepped : step m = .error trap m') (sameExe : m'.exe = s.exe)
    (running : m'.registers.current = a.current) (last : m'.registers.opPc = point.pc)
    (refuses : Stack.Refuses s.limit required trap) (small : required ≤ s.bound) :
  s.Exhausts m
  := by
  refine ⟨?_, ?_⟩
  · rcases refuses.cause with full | large
    · exact .inl (by omega)
    · exact .inr large
  · rcases refuses.kind with rfl | rfl
    · refine ⟨_, m', endsIn_of_fault stepped
        (s.compiled.locate_eq listed sameExe running last _), .inr ⟨_, _, rfl⟩⟩
    · exact ⟨_, m', endsIn_of_crash stepped, .inl rfl⟩

/-- A step that ends with a push adds a cell or exhausts the stack. -/
theorem Fetches.pushed (fetches : s.Fetches point m i)
    (listed : point ∈ s.program.points a.current) (running : m.registers.current = a.current)
    {m₁ : Machine} {v : Value} {cs : List Cell}
    (executed : execute i (m.advanced i) = (push v >>= fun _ => pure none) m₁)
    (stack : m₁.stack.InUse cs) (sameExe : m₁.exe = s.exe) (limit : m₁.stack.limit = s.limit)
    (registers : m₁.registers = (m.advanced i).registers) (small : cs.length + 1 ≤ s.bound) :
  s.Steps m fun m' => ∃ st : Stack, m' = { m₁ with stack := st }
    ∧ st.InUse (cs ++ [.value v]) ∧ st.limit = s.limit
  := by
  rcases stack.push v with ⟨st, pushed, inUse, same⟩ | ⟨trap, failed, refuses⟩
  · right
    refine ⟨{ m₁ with stack := st }, fetches.ok _ ?_, st, rfl, inUse, same.trans limit⟩
    rw [executed]
    exact bind_of_ok (onStack_of_ok pushed) _
  · left
    rw [limit] at refuses
    have stepped : step m = .error trap m₁ := by
      apply fetches.error
      rw [executed]
      exact bind_of_error (onStack_of_error failed) _
    apply exhausts_of_refuses listed stepped sameExe _ _ refuses small
    · rw [registers]
      exact running
    · rw [registers]
      exact fetches.opPc

/-! ### Instructions on operands -/

/-- What a plain instruction makes of the operands on top and of the globals. -/
structure Computes (s : Setting) (i : Instruction) (ws : List Int64) (store : Store)
    (leaves : List Int64) (store' : Store) : Prop where
  plain : i.op.isPlain
  reads : ws.length = i.reads
  locals : store'.locals = store.locals
  globals : store'.globals.length = store.globals.length
  computed : ∃ result : Option Int64,
    ws.take (ws.length - (i.early + i.late)) ++ result.toList = leaves
      ∧ ∀ m : Machine, m.exe = s.exe → m.globals = store.words →
        i.compute (ws.map Value.ofInt) m
          = .ok (result.map Value.ofInt) { m with globals := store'.words }

end Setting

/-- Executing a plain instruction that computes a result pushes it in place of operands. -/
theorem Machine.execute_of_computed {i : Instruction} {m m₁ : Machine} {low : Nat}
    {vs : List Value} {result : Option Value} (plain : i.op.isPlain) (h : m.stack.Holds low vs)
    (count : vs.length = i.reads) (computed : i.compute vs (m.lowered i.early) = .ok result m₁) :
  execute i m = (pushResult result >>= fun _ => pure none) (m₁.lowered i.late)
  := by
  have sp := h.sp_eq
  have drops := i.drops_le_reads
  have kept : m₁.stack = m.stack.lowered i.early := by
    have same := (i.offStack_compute vs).stack (m.lowered i.early)
    rw [computed] at same
    exact same
  have enough : i.late ≤ m₁.stack.sp := by
    rw [kept, Stack.lowered_sp]
    omega
  rw [execute_eq_operate plain h count]
  apply bind_congr_at
  unfold operate
  rw [← count, bind_of_ok (top_eq h), bind_of_ok (shrink_eq (by omega)), bind_of_ok computed,
    bind_of_ok (shrink_eq enough)]

/-- A plain instruction fails if its computation does. -/
theorem Machine.execute_of_failed {i : Instruction} {m m₁ : Machine} {low : Nat}
    {vs : List Value} {trap : Trap} (plain : i.op.isPlain) (h : m.stack.Holds low vs)
    (count : vs.length = i.reads) (failed : i.compute vs (m.lowered i.early) = .error trap m₁) :
  execute i m = .error trap m₁
  := by
  have sp := h.sp_eq
  have drops := i.drops_le_reads
  rw [execute_eq_operate plain h count]
  apply bind_of_error
  unfold operate
  rw [← count, bind_of_ok (top_eq h), bind_of_ok (shrink_eq (by omega)), bind_of_error failed]

namespace Setting

variable {s : Setting} {a : Activation} {pc : Nat} {point : Point} {i : Instruction}
  {us ws : List Int64} {store store' : Store} {m m' : Machine}
variable {v : Int64} {index : UInt16} {ty : Ty}

section

variable (listed : point ∈ s.program.points a.current)
include listed

/-- The cells that an instruction may leave are within the bound. -/
theorem Mirrors.length_le (here : s.Mirrors a point.pc us store m) (count : us.length = point.depth)
    (room : a.base + s.program.width ≤ s.bound) :
  (a.cells s.program store.locals ++ us.map word).length + 1 ≤ s.bound
  := by
  have cells := a.length_cells here.localCount
  have wide := Program.le_width listed
  rw [List.length_append, List.length_map, cells]
  omega

theorem Mirrors.plain {leaves : List Int64} (here : s.Mirrors a point.pc (us ++ ws) store m)
    (count : (us ++ ws).length = point.depth) (room : a.base + s.program.width ≤ s.bound)
    (computes : ∀ i, s.Fetches point m i → s.Computes i ws store leaves store') :
  s.Steps m (s.Mirrors a point.next (us ++ leaves) store')
  := by
  obtain ⟨i, fetches⟩ := here.exists_fetches listed
  obtain ⟨plain, reads, locals, globals, result, rfl, compute⟩ := computes i fetches
  have small := here.length_le listed count room
  have inUse := here.stack
  rw [List.map_append, ← List.append_assoc, ← map_value_ofInt ws] at inUse
  have held : (m.advanced i).stack.Holds _ (ws.map Value.ofInt) := inUse.holds
  have drops := i.drops_le_reads
  have executed := execute_of_computed plain held (by simpa using reads)
    (compute ((m.advanced i).lowered i.early) here.exe here.globals)
  let m₁ := ({ (m.advanced i).lowered i.early with globals := store'.words }).lowered i.late
  have left : m₁.stack.InUse ((a.cells s.program store.locals ++ us.map word)
      ++ (ws.take (ws.length - (i.early + i.late))).map word) := by
    have dropped : m.stack.Rewritten _ _ (m.stack.lowered (i.early + i.late)) :=
      .lowered held (by simp; omega)
    have lowered := inUse.rewritten dropped
    rw [← List.map_take, map_value_ofInt, List.length_map] at lowered
    change ((m.stack.lowered i.early).lowered i.late).InUse _
    rw [Stack.lowered_lowered]
    exact lowered
  have mirrors (st : Stack) (limit : st.limit = s.limit)
      (stack : st.InUse (a.cells s.program store.locals
        ++ (us ++ (ws.take (ws.length - (i.early + i.late)) ++ result.toList)).map word)) :
      s.Mirrors a point.next (us ++ (ws.take (ws.length - (i.early + i.late)) ++ result.toList))
        store' { m₁ with stack := st } := by
    refine ⟨here.exe, here.host, limit, here.current, here.base, fetches.nextPc_eq, ?_, rfl, ?_, ?_⟩
    · rw [locals]
      exact stack
    · rw [globals, here.globalCount]
    · rw [locals, here.localCount]
  cases result with
  | none =>
    right
    refine ⟨m₁, fetches.ok _ executed, mirrors m₁.stack here.limit ?_⟩
    simpa using left
  | some v =>
    have small' : ((a.cells s.program store.locals ++ us.map word)
        ++ (ws.take (ws.length - (i.early + i.late))).map word).length + 1 ≤ s.bound := by
      simp only [List.length_append, List.length_map, List.length_take] at small ⊢
      omega
    rcases fetches.pushed listed here.current executed left here.exe here.limit rfl small'
      with exhausts | ⟨m', stepped, st, rfl, stack, limit⟩
    · exact .inl exhausts
    · refine .inr ⟨_, stepped, mirrors st limit ?_⟩
      simpa [word] using stack

/-- An instruction that takes no operands. -/
theorem Mirrors.pushes (here : s.Mirrors a point.pc us store m) (count : us.length = point.depth)
    (room : a.base + s.program.width ≤ s.bound)
    (computes : ∀ i, s.Fetches point m i → s.Computes i [] store [v] store) :
  s.Steps m (s.Mirrors a point.next (us ++ [v]) store)
  := by
  have whole : s.Mirrors a point.pc (us ++ []) store m := by rwa [List.append_nil]
  exact whole.plain listed (by simpa using count) room computes

end

/-- An instruction that computes a value from the operands and changes nothing else. -/
theorem computes_of_value {leaves : List Int64} (plain : i.op.isPlain)
    (reads : ws.length = i.reads)
    (left : ws.take (ws.length - (i.early + i.late)) ++ [v] = leaves)
    (compute : ∀ m : Machine, m.exe = s.exe → m.globals = store.words →
      i.compute (ws.map Value.ofInt) m = .ok (some (.ofInt v)) m) :
  s.Computes i ws store leaves store
  := by
  refine ⟨plain, reads, rfl, rfl, some v, left, ?_⟩
  intro m sameExe globals
  rw [compute m sameExe globals, ← globals]
  rfl

section

variable (fetches : s.Fetches point m i)
include fetches

/-- The instruction has the opcode of the directive, and its number. -/
theorem Fetches.eq_of_directive {d : Directive} (directive : point.toDirective = d) :
  ∃ pc operand, i = ⟨pc, d.op, operand⟩
    ∧ ∀ n : Nat, d.operand = .number n → (operand.getD 0).toNat = n
  := by
  subst directive
  have op := fetches.op
  have number := fun n : Nat => fetches.number_eq (n := n)
  obtain ⟨pc, _, operand⟩ := i
  cases op
  exact ⟨pc, operand, rfl, number⟩

/-! ### Literals -/

/-- Literals of all sizes push their values. -/
theorem Fetches.computes_int (directive : point.toDirective = .int v) :
  s.Computes i [] store [v] store
  := by
  have op := fetches.op
  have denotes := fetches.operand
  obtain ⟨instruction, pc, depth, line⟩ := point
  obtain rfl : instruction = .int v := directive
  obtain ⟨pc, opcode, operand⟩ := i
  dsimp only at op denotes
  subst op
  unfold Directive.int at denotes ⊢
  split at denotes
  · next small =>
      obtain ⟨rfl, -, -⟩ := denotes
      simp only [if_pos small]
      refine computes_of_value rfl rfl rfl fun m _ _ => ?_
      have number : (operandWord v.toInt).toNat = v.toInt.toNat := by
        have encoded := toNat_operandWord v.toInt
        omega
      change EStateM.Result.ok (some (Value.ofNat (operandWord v.toInt).toNat)) m = _
      rw [number, Value.ofNat_toNat_toInt small.1]
  · next large =>
      split at denotes
      · next small =>
          obtain ⟨rfl, -, -⟩ := denotes
          simp only [if_neg large, if_pos small]
          refine computes_of_value rfl rfl rfl fun m _ _ => ?_
          change EStateM.Result.ok (some (Value.ofInt (operandWord v.toInt).toInt16.toInt64)) m = _
          rw [toInt64_operandWord small.1 small.2]
      · next larger =>
          obtain ⟨index, rfl, found⟩ := denotes
          simp only [if_neg large, if_neg larger]
          refine computes_of_value rfl rfl rfl fun m sameExe _ => ?_
          apply map_eq_ok.2
          refine ⟨.ofInt v, ?_, rfl⟩
          have number : (⟨pc, .pushInt, some index⟩ : Instruction).number = index.toNat := rfl
          rw [Instruction.compute.literal, bind_of_ok (get_eq m), sameExe, number, found]
          rfl

theorem Fetches.computes_bool {b : Bool} (directive : point.toDirective = .bool b) :
  s.Computes i [] store [truth b] store
  := by
  obtain ⟨pc, operand, rfl, number⟩ := fetches.eq_of_directive directive
  refine computes_of_value rfl rfl rfl fun m _ _ => ?_
  change EStateM.Result.ok (some (Value.ofNat (operand.getD 0).toNat)) m = _
  cases b with
  | false | true =>
    rw [number _ rfl]
    rfl

theorem Fetches.computes_pushFunction
    (directive : point.toDirective = { op := .pushFunction, operand := .number index.toNat }) :
  s.Computes i [] store [Int64.ofNat index.toNat] store
  := by
  obtain ⟨pc, operand, rfl, number⟩ := fetches.eq_of_directive directive
  refine computes_of_value rfl rfl rfl fun m _ _ => ?_
  change EStateM.Result.ok (some (Value.ofNat (operand.getD 0).toNat)) m = _
  rw [number _ rfl]
  unfold Value.ofInt Value.ofNat
  rw [Int64.toUInt64_ofNat']

/-! ### Globals -/

theorem Fetches.computes_pushStatic {kind : SlotKind}
    (directive : point.toDirective = { op := .pushStatic kind, operand := .number index.toNat })
    (found : store.globals[index.toNat]? = some v) :
  s.Computes i [] store [v] store
  := by
  obtain ⟨pc, operand, rfl, number⟩ := fetches.eq_of_directive directive
  refine computes_of_value rfl rfl rfl fun m _ globals => ?_
  apply map_eq_ok.2
  refine ⟨.ofInt v, ?_, rfl⟩
  unfold getGlobal Instruction.number
  rw [number _ rfl, globals, Store.getElem?_words found]

theorem Fetches.computes_popStatic {kind : SlotKind}
    (directive : point.toDirective = { op := .popStatic kind, operand := .number index.toNat })
    (inside : index.toNat < store.globals.length) (v : Int64) :
  s.Computes i [v] store [] (store.write (.global index) v)
  := by
  obtain ⟨pc, operand, rfl, number⟩ := fetches.eq_of_directive directive
  refine ⟨rfl, rfl, rfl, by simp [Store.write], none, rfl, fun m _ globals => ?_⟩
  apply map_eq_ok.2
  refine ⟨(), ?_, rfl⟩
  unfold setGlobal Instruction.number
  rw [number _ rfl, globals, if_pos (by simpa [Store.words] using inside)]
  congr 2
  simp [Store.words, Store.write, List.map_set]

/-! ### Operators -/

theorem Fetches.computes_arith {op : ArithOp}
    (directive : point.toDirective = { op := .arithInt op }) {w r : Int64}
    (result : op.onInts v w = .ok r) :
  s.Computes i [v, w] store [r] store
  := by
  obtain ⟨pc, operand, rfl, -⟩ := fetches.eq_of_directive directive
  refine computes_of_value rfl rfl rfl fun m _ _ => ?_
  apply map_eq_ok.2
  refine ⟨.ofInt r, ?_, rfl⟩
  simp only [List.map_cons, List.map_nil, List.getD_cons_zero, List.getD_cons_succ, arithInts,
    Value.toInt_ofInt, result]
  rfl

theorem Fetches.computes_compare {op : Comparison}
    (directive : point.toDirective = { op := .compareInt op }) (v w : Int64) :
  s.Computes i [v, w] store [truth (op.onIntegers v.toInt w.toInt)] store
  := by
  obtain ⟨pc, operand, rfl, -⟩ := fetches.eq_of_directive directive
  refine computes_of_value rfl rfl rfl fun m _ _ => ?_
  rw [← Value.ofBool_eq, ← op.onInts_eq]
  change EStateM.Result.ok (some (Value.ofBool (op.onInts (Value.ofInt v).toInt
    (Value.ofInt w).toInt))) m = _
  rw [Value.toInt_ofInt, Value.toInt_ofInt]

theorem Fetches.computes_unary {op : UnaryOp} (scalar : ty.isScalar)
    (directive : point.toDirective = { op := Gen.unaryOp op ty }) (v : Int64) :
  s.Computes i [v] store [op.onIntegers v] store
  := by
  obtain ⟨pc, operand, rfl, -⟩ := fetches.eq_of_directive directive
  cases op with
  | minus =>
    have whole : Gen.unaryOp .minus ty = .minusInt := by
      cases ty with
      | double => cases scalar
      | _ => rfl
    rw [whole]
    refine computes_of_value rfl rfl rfl fun m _ _ => ?_
    change EStateM.Result.ok (some (Value.ofInt (-(Value.ofInt v).toInt))) m = _
    rw [Value.toInt_ofInt, UnaryOp.onIntegers, Int64.ofInt_neg, Int64.ofInt_toInt]
  | not =>
    refine computes_of_value rfl rfl rfl fun m _ _ => ?_
    change EStateM.Result.ok (some (Value.ofBool (!(Value.ofInt v).toBool))) m = _
    rw [Value.toBool_ofInt, Value.ofBool_eq, UnaryOp.onIntegers]
    simp

theorem Fetches.computes_pop (directive : point.toDirective = { op := .pop }) (v : Int64) :
  s.Computes i [v] store [] store
  := by
  obtain ⟨pc, operand, rfl, -⟩ := fetches.eq_of_directive directive
  refine ⟨rfl, rfl, rfl, rfl, none, rfl, fun m _ globals => ?_⟩
  rw [← globals]
  rfl

theorem Fetches.computes_duplicate (directive : point.toDirective = { op := .duplicate })
    (v : Int64) :
  s.Computes i [v] store [v, v] store
  := by
  obtain ⟨pc, operand, rfl, -⟩ := fetches.eq_of_directive directive
  exact computes_of_value rfl rfl rfl fun m _ _ => rfl

end

/-- Only a function has variables of its own. -/
theorem Mirrors.isCall (here : s.Mirrors a pc us store m) {slot : Nat}
    (inside : slot < store.locals.length) :
  ∃ index, a.current = some index
  := by
  cases a with
  | topLevel =>
    have none : store.locals.length = 0 := here.localCount
    omega
  | call index caller pc base below => exact ⟨index, rfl⟩

section

variable (listed : point ∈ s.program.points a.current)
include listed

/-- An operation without a result ends the run at its line. -/
theorem Mirrors.divides {w : Int64} (here : s.Mirrors a point.pc (us ++ [v, w]) store m)
    {op : ArithOp} (directive : point.toDirective = { op := .arithInt op })
    (undefined : op.onInts v w = .error .divisionByZero) :
  ∃ m', m.EndsIn (.failed ⟨.divisionByZero, s.program.nameOf a.current, point.line⟩) m'
    ∧ m'.globals = store.words
  := by
  obtain ⟨i, fetches⟩ := here.exists_fetches listed
  have opcode := fetches.op
  rw [directive] at opcode
  have inUse := here.stack
  rw [List.map_append, ← List.append_assoc, ← map_value_ofInt [v, w]] at inUse
  have held : (m.advanced i).stack.Holds _ ([v, w].map Value.ofInt) := inUse.holds
  have executed : execute i (m.advanced i)
      = .error (.error .divisionByZero) ((m.advanced i).lowered 1) := by
    obtain ⟨pc, _, operand⟩ := i
    cases opcode
    apply execute_of_failed rfl held rfl
    apply bind_of_error
    simp only [List.map_cons, List.map_nil, List.getD_cons_zero, List.getD_cons_succ, arithInts,
      Value.toInt_ofInt, undefined]
    rfl
  have located : ((m.advanced i).lowered 1).locate .divisionByZero
      = some ⟨.divisionByZero, s.program.nameOf a.current, point.line⟩ := by
    apply s.compiled.locate_eq listed
    · exact here.exe
    · exact here.current
    · exact fetches.opPc
  exact ⟨_, endsIn_of_fault (fetches.error _ _ executed) located, here.globals⟩

/-! ### Variables -/

theorem Mirrors.loads (here : s.Mirrors a point.pc us store m) (count : us.length = point.depth)
    (room : a.base + s.program.width ≤ s.bound) {place : Variable}
    (inRange : place.inRange s.program store.locals.length)
    (directive : point.toDirective = .load (s.program.frame a.current).1 ty place) :
  s.Steps m (s.Mirrors a point.next (us ++ [store.read place]) store)
  := by
  cases place with
  | global index =>
    have inside : index.toNat < store.globals.length := by
      rw [here.globalCount]
      simpa [Variable.inRange] using inRange
    apply here.pushes listed count room
    intro i fetches
    apply fetches.computes_pushStatic directive
    simp [Store.read, inside]
  | «local» slot =>
    have inside : slot.toNat < store.locals.length := by simpa [Variable.inRange] using inRange
    obtain ⟨index, isCall⟩ := here.isCall inside
    obtain ⟨i, fetches⟩ := here.exists_fetches listed
    have opcode := fetches.op
    have number := fetches.number_eq (congrArg Directive.operand directive)
    rw [directive] at opcode
    have slotted := Activation.getElem?_cells (p := s.program) isCall
      (List.getElem?_eq_getElem inside)
    have found := here.stack.cell _ _
      ((List.getElem?_append_left (List.getElem?_eq_some_iff.1 slotted).1).trans slotted)
    rw [← number, ← here.base] at found
    have executed := execute_pushStack (m := m.advanced i) opcode found
    rcases fetches.pushed listed here.current executed here.stack here.exe here.limit rfl
      (here.length_le listed count room) with exhausts | ⟨m', stepped, st, rfl, stack, limit⟩
    · exact .inl exhausts
    · refine .inr ⟨_, stepped, here.exe, here.host, limit, here.current, here.base,
        fetches.nextPc_eq, ?_, here.globals, here.globalCount, here.localCount⟩
      simpa [Store.read, inside, word] using stack

theorem Mirrors.stores (here : s.Mirrors a point.pc (us ++ [v]) store m)
    (count : (us ++ [v]).length = point.depth) (room : a.base + s.program.width ≤ s.bound)
    {place : Variable}
    (inRange : place.inRange s.program store.locals.length)
    (directive : point.toDirective = .store (s.program.frame a.current).1 ty place) :
  s.Steps m (s.Mirrors a point.next us (store.write place v))
  := by
  cases place with
  | global index =>
    have inside : index.toNat < store.globals.length := by
      rw [here.globalCount]
      simpa [Variable.inRange] using inRange
    have stored := here.plain listed count room
      fun i fetches => fetches.computes_popStatic directive inside v
    rw [List.append_nil] at stored
    exact stored
  | «local» slot =>
    have inside : slot.toNat < store.locals.length := by simpa [Variable.inRange] using inRange
    obtain ⟨index, isCall⟩ := here.isCall inside
    obtain ⟨i, fetches⟩ := here.exists_fetches listed
    have opcode := fetches.op
    have number := fetches.number_eq (congrArg Directive.operand directive)
    rw [directive] at opcode
    have inUse := here.stack
    rw [List.map_append, ← List.append_assoc] at inUse
    have slotted := Activation.getElem?_cells (p := s.program) isCall
      (List.getElem?_eq_getElem inside)
    have low := (List.getElem?_eq_some_iff.1 slotted).1
    have written := Activation.set_cells (p := s.program) isCall inside v
    rw [← number, ← here.base] at low written
    have small : m.registers.base + i.number < m.stack.cells.size := by
      have sp := here.stack.sp_eq
      have fits := here.stack.fits
      rw [List.length_append] at sp
      omega
    have held : (m.advanced i).stack.Holds (a.cells s.program store.locals ++ us.map word).length
        ([] ++ [Value.ofInt v]) := Stack.InUse.holds inUse
    have executed := execute_popStack opcode held small
    refine .inr ⟨_, fetches.ok _ executed, here.exe, here.host, here.limit, here.current,
      here.base, fetches.nextPc_eq, ?_, here.globals, here.globalCount, ?_⟩
    · have lowered : (m.stack.lowered 1).InUse _ := inUse.lowered
      have set := lowered.set (m.registers.base + i.number) (word v)
      rw [List.set_append_left _ _ low, written] at set
      exact set
    · simpa [Store.write] using here.localCount

/-! ### Jumps -/

theorem Mirrors.jumps (here : s.Mirrors a point.pc us store m) (jump : point.op = .jump)
    {target : Nat} (operand : point.operand = .number target) :
  s.Steps m (s.Mirrors a target us store)
  := by
  obtain ⟨i, fetches⟩ := here.exists_fetches listed
  have executed := execute_jump (m := m.advanced i) (fetches.op.trans jump)
  exact .inr ⟨_, fetches.ok _ executed, here.exe, here.host, here.limit, here.current, here.base,
    fetches.number_eq operand, here.stack, here.globals, here.globalCount, here.localCount⟩

/-- A conditional jump drops the condition. -/
theorem Mirrors.jumpsIf (here : s.Mirrors a point.pc (us ++ [v]) store m)
    (truth : Bool) (jump : point.op = if truth then .jumpIfTrue else .jumpIfFalse) {target : Nat}
    (operand : point.operand = .number target) :
  s.Steps m (s.Mirrors a (if decide (v ≠ 0) = truth then target else point.next) us store)
  := by
  obtain ⟨i, fetches⟩ := here.exists_fetches listed
  have inUse := here.stack
  rw [List.map_append, ← List.append_assoc] at inUse
  have held : (m.advanced i).stack.Holds _ ([] ++ [Value.ofInt v]) := Stack.InUse.holds inUse
  have executed := execute_jumpIf (fetches.op.trans jump) held
  have lowered : (m.stack.lowered 1).InUse _ := inUse.lowered
  have number := fetches.number_eq operand
  rw [Value.toBool_ofInt] at executed
  simp only [beq_iff_eq] at executed
  split at executed
  · next taken =>
      rw [if_pos taken]
      exact .inr ⟨_, fetches.ok _ executed, here.exe, here.host, here.limit, here.current,
        here.base, number, lowered, here.globals, here.globalCount, here.localCount⟩
  · next other =>
      rw [if_neg other]
      exact .inr ⟨_, fetches.ok _ executed, here.exe, here.host, here.limit, here.current,
        here.base, fetches.nextPc_eq, lowered, here.globals, here.globalCount, here.localCount⟩

end

end Setting

end Bytecode
