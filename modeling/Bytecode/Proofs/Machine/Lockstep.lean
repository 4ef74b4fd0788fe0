import Mathlib
import Bytecode.Proofs.Machine.Alike

/-!
# Alike machines in lockstep

Two machines that are alike have the same instruction before them. `Alike.execute` says that
executing it comes to the same on both sides, and `Alike.collected` that collections, on one side or
on both, leave machines that are alike: what is left of the pairing is what can be reached. Together
they make `Alike.step`.
-/

namespace Bytecode

/-- The native function is built in and does not tell the time. -/
def Native.Timeless (n : Native) : Prop :=
  n ∈ Registry.defaults.natives ∧ n.name ≠ Native.nowMillis.name

namespace Machine

open Instruction

variable {ρ : Pairing} {m m' : Machine} {v w : Value}

/-! ### Parts of alike machines -/

namespace Alike

section

variable (alike : m.Alike ρ m')
include alike

theorem withStack {s s' : Stack} (same : s.Alike ρ s') :
  ({ m with stack := s } : Machine).Alike ρ { m' with stack := s' }
  := ⟨alike.exe, alike.natives, alike.registers, alike.output, same, alike.globals, alike.heap⟩

/-- The registers are changed in the same way. -/
theorem onRegisters (f : Registers → Registers) :
  ({ m with registers := f m.registers } : Machine).Alike ρ
    { m' with registers := f m'.registers }
  := ⟨alike.exe, alike.natives, congrArg f alike.registers, alike.output, alike.stack,
    alike.globals, alike.heap⟩

theorem lowered (count : Nat) :
  (m.lowered count).Alike ρ (m'.lowered count)
  := alike.withStack (alike.stack.lowered count)

theorem atPc (pc : Nat) :
  (m.atPc pc).Alike ρ (m'.atPc pc)
  := alike.onRegisters fun registers => { registers with pc }

theorem advanced (i : Instruction) :
  (m.advanced i).Alike ρ (m'.advanced i)
  := alike.onRegisters fun registers => { registers with opPc := registers.pc, pc := i.nextPc }

theorem code_eq :
  m'.code = m.code
  := by
  unfold code
  rw [alike.exe, alike.registers]

end

end Alike

/-! ### Operating -/

theorem matched_onStack (alike : m.Alike ρ m') {x y : StackM Unit}
    (both : Stack.Matched ρ m.stack m'.stack (x m.stack) (y m'.stack)) :
  Matched (fun _ _ _ => True) ρ (onStack x m) (onStack y m')
  := by
  rw [onStack_eq, onStack_eq]
  generalize x m.stack = r at both
  generalize y m'.stack = r' at both
  cases both with
  | ok same => exact .ok (.refl ρ) (alike.withStack same) trivial
  | error trap => exact .error (.refl ρ) (alike.withStack alike.stack)

theorem matched_push (alike : m.Alike ρ m') (values : v.Alike ρ w) :
  Matched (fun _ _ _ => True) ρ (push v m) (push w m')
  := matched_onStack alike (alike.stack.pushCell (.value values))

/-- Operating on alike operands with computations that come to the same. -/
theorem matched_operate {low reads early late : Nat} {vs ws : List Value}
    {compute : List Value → MachineM (Option Value)} (h : m.stack.Holds low vs)
    (h' : m'.stack.Holds low ws) (count : vs.length = reads) (count' : ws.length = reads)
    (drops : early ≤ reads)
    (computed : Matched YieldsAlike ρ (compute vs (m.lowered early))
      (compute ws (m'.lowered early))) :
  Matched (fun _ _ _ => True) ρ (operate reads early late compute m)
    (operate reads early late compute m')
  := by
  have sp := h.sp_eq
  have sp' := h'.sp_eq
  subst count
  have top' := top_eq h'
  rw [count'] at top'
  unfold operate
  rw [bind_of_ok (top_eq h), bind_of_ok top', bind_of_ok (shrink_eq (by omega)),
    bind_of_ok (shrink_eq (by omega))]
  apply computed.bind
  intro ρ₁ r r' m₁ m₁' _ alike₁ yields
  apply (matched_onStack alike₁ (alike₁.stack.shrink late)).bind
  intro ρ₂ _ _ m₂ m₂' within alike₂ _
  cases yields with
  | none => exact .ok (.refl ρ₂) alike₂ trivial
  | some values => apply matched_push alike₂ (values.mono within)

/-! ### Entering functions -/

theorem matched_pushLocals (alike : m.Alike ρ m') (decls : List VariableDecl) :
  Matched (fun _ _ _ => True) ρ (pushLocals decls m) (pushLocals decls m')
  := by
  induction decls generalizing ρ m m' with
  | nil => exact .ok (.refl ρ) alike trivial
  | cons decl rest ih =>
    unfold pushLocals
    apply (matched_modifyHeap (R := Value.Alike) alike (alike.heap.defaultValue decl.ty)).bind
    intro ρ₁ v w m₁ m₁' _ alike₁ values
    apply (matched_push alike₁ values).bind
    intro ρ₂ _ _ m₂ m₂' _ alike₂ _
    apply ih alike₂

theorem matched_enterFunction (alike : m.Alike ρ m') (index : Nat) {f : Function}
    (enough : f.params.length ≤ m.stack.sp) (caller : Caller) :
  Matched (fun _ _ _ => True) ρ (enterFunction index f caller m) (enterFunction index f caller m')
  := by
  have sp := alike.stack.sp_eq
  rw [enterFunction_eq enough, enterFunction_eq (m := m') (by omega), alike.registers, sp]
  apply (matched_onStack alike (alike.stack.reserve _)).bind
  intro ρ₁ _ _ m₁ m₁' _ alike₁ _
  apply (matched_onStack alike₁ (alike₁.stack.pushCell (.call _))).bind
  intro ρ₂ _ _ m₂ m₂' _ alike₂ _
  apply (matched_pushLocals alike₂ f.locals).bind
  intro ρ₃ _ _ m₃ m₃' _ alike₃ _
  refine .ok (.refl ρ₃) ?_ trivial
  exact alike₃.onRegisters fun registers =>
    { registers with current := some index, pc := 0, base := m.stack.sp - f.params.length }

/-! ### Native functions -/

theorem matched_written (alike : m.Alike ρ m') (heaps : Heap.Alike ρ m.heap m'.heap)
    (f : String → String) {vs ws : List Value} (values : List.Forall₂ (Value.Alike ρ) vs ws)
    {native : Native} (writes : ∀ args host, native.run args host = Native.written f args host) :
  Matched Value.Alike ρ (onHost (native.run vs) m) (onHost (native.run ws) m')
  := by
  rw [onHost_eq, onHost_eq, writes, writes]
  cases values with
  | nil => exact .error (.refl ρ) alike
  | @cons v w vs ws first rest =>
    unfold Native.written
    have text (text : String) : Matched Value.Alike ρ
        (.ok .zero { m with host := m.host.write (f text) })
        (.ok .zero { m' with host := m'.host.write (f text) }) := by
      refine .ok (.refl ρ) ?_ (.word 0)
      exact ⟨alike.exe, alike.natives, alike.registers,
        congrArg (Array.push · (f text)) alike.output, alike.stack, alike.globals, alike.heap⟩
    dsimp only
    rw [Host.textOrNull_eq, Host.textOrNull_eq]
    rcases first.handles with ⟨none_, none_'⟩ | ⟨a, b, named, named', paired⟩
    · rw [none_, none_']
      apply text
    · obtain ⟨o, o', found, found', contents⟩ := heaps.object a b paired
      have there : m.host.heap.get? a = some o := found
      have there' : m'.host.heap.get? b = some o' := found'
      rw [named, named']
      dsimp only
      rw [there, there']
      dsimp only
      rw [contents.text?_eq]
      apply text

/-- What a native function makes of alike arguments is alike. Only the square root takes a
number. -/
theorem matched_native (alike : m.Alike ρ m') (heaps : Heap.Alike ρ m.heap m'.heap)
    {vs ws : List Value} (values : List.Forall₂ (Value.Alike ρ) vs ws) {native : Native}
    (timeless : native.Timeless) (numbers : native = .sqrt → ∀ v ∈ vs, v.handle? = none) :
  Matched Value.Alike ρ (onHost (native.run vs) m) (onHost (native.run ws) m')
  := by
  obtain ⟨listed, notTime⟩ := timeless
  simp only [Registry.defaults, List.mem_cons, List.not_mem_nil, or_false] at listed
  rcases listed with rfl | rfl | rfl | rfl
  · apply matched_written alike heaps id values Native.print_run_eq
  · apply matched_written alike heaps (· ++ "\n") values Native.println_run_eq
  · rw [← Value.Alike.list_eq_of_plain values (numbers rfl), onHost_eq, onHost_eq,
      Native.sqrt_run_eq, Native.sqrt_run_eq]
    cases vs with
    | nil => exact .error (.refl ρ) alike
    | cons v rest =>
      dsimp only
      by_cases negative : v.toDouble.lt .zero
      · rw [if_pos negative, if_pos negative]
        exact .error (.refl ρ) alike
      · rw [if_neg negative, if_neg negative]
        exact .ok (.refl ρ) alike (.word _)
  · exact absurd rfl notTime

/-- All native functions that are bound are built in, and none of them tells the time. -/
def Timeless (m : Machine) : Prop :=
  ∀ (index : Nat) native, (m.natives[index]?).join = some native → native.Timeless

theorem matched_callNative (alike : m.Alike ρ m') (heaps : Heap.Alike ρ m.heap m'.heap)
    (timeless : m.Timeless) (linked : m.Linked) {index low : Nat} {f : Function}
    {vs ws : List Value} (found : m.exe.functions[index]? = some f) (h : m.stack.Holds low vs)
    (h' : m'.stack.Holds low ws) (values : List.Forall₂ (Value.Alike ρ) vs ws)
    (count : vs.length = f.params.length)
    (numbers : (m.natives[index]?).join = some .sqrt → ∀ v ∈ vs, v.handle? = none) :
  Matched (fun _ _ _ => True) ρ (callNative index f m) (callNative index f m')
  := by
  have same : (m'.natives[index]?).join = (m.natives[index]?).join := by rw [alike.natives]
  cases bound : (m.natives[index]?).join with
  | none =>
    rw [callNative_of_none bound, callNative_of_none (same.trans bound)]
    exact .error (.refl ρ) alike
  | some native =>
    have arity : vs.length = native.arity := by rw [linked _ _ _ bound found, count]
    have length := values.length_eq
    rw [callNative_eq bound h arity, callNative_eq (same.trans bound) h' (by omega), ← length]
    apply matched_operate h h' rfl length.symm (Nat.zero_le _)
    apply matched_some
    apply matched_native alike heaps values (timeless index native bound)
    rintro rfl
    apply numbers bound

/-! ### Instructions -/

/-- The instruction, executed next by the machine, reads no reference as a number. -/
structure NumbersAt (m : Machine) (i : Instruction) : Prop where
  operands : ∀ low vs, m.stack.Holds low vs → vs.length = i.reads → i.ReadsNumbers vs m.heap
  /-- The condition of a jump, or the index of the function called. -/
  top : i.op = .jumpIfTrue ∨ i.op = .jumpIfFalse ∨ i.op = .invoke →
    ∀ v, m.stack.cells[m.stack.sp - 1]? = some (.value v) → v.handle? = none
  /-- The argument of a square root. -/
  argument : i.op = .invoke → ∀ v w, m.stack.cells[m.stack.sp - 1]? = some (.value v) →
    (m.natives[v.bits.toNat]?).join = some .sqrt →
    m.stack.cells[m.stack.sp - 2]? = some (.value w) → w.handle? = none

namespace Alike

variable {p : Program} {entry : Nat} {point : Point} {vs : List Value} {i : Instruction}

section

variable (alike : m.Alike ρ m')
include alike

/-- Call records in use are the same. -/
theorem callInfo?_eq {k : Nat} {info : CallInfo} (used : k < m.stack.sp)
    (record : m.stack.callInfo? k = some info) :
  m'.stack.callInfo? k = some info
  := by
  unfold Stack.callInfo? at record ⊢
  split at record
  · next found =>
      obtain ⟨c, found', cells⟩ := alike.stack.exists_cell used found
      cases cells
      rw [found']
      exact record
  · cases record

theorem returned (info : CallInfo) (values : v.Alike ρ w) (below : m.registers.base < m.stack.sp) :
  (m.returned info v).Alike ρ (m'.returned info w)
  := by
  have same := (alike.stack.set m.registers.base values).truncate
    (show m.registers.base + 1 ≤ m.stack.sp from below)
  unfold Machine.returned
  rw [alike.registers]
  exact ⟨alike.exe, alike.natives, rfl, alike.output, same, alike.globals, alike.heap⟩

variable (framed : m.Framed p entry) (here : m.At p point vs i) (compiled : CompiledFrom p m.exe)
include here

theorem plain (heaps : Heap.Alike ρ m.heap m'.heap) (reads : i.reads = point.takes)
    (plain : i.op.isPlain) (numbers : m.NumbersAt i) :
  Matched YieldsAlike ρ (execute i (m.advanced i)) (execute i (m'.advanced i))
  := by
  obtain ⟨us, ws, rfl, -, upper⟩ := here.split
  have count : ws.length = i.reads := by rw [upper, reads]
  have top : (m.advanced i).stack.Holds (m.operandBase + us.length) ws := here.holds.upper
  obtain ⟨ws', top', values⟩ := (alike.advanced i).stack.holds top
  have count' : ws'.length = i.reads := by rw [← values.length_eq, count]
  have drops := i.drops_le_reads
  rw [execute_eq_operate plain top count, execute_eq_operate plain top' count']
  refine (matched_operate top top' count count' (by omega) ?_).bind ?_
  · apply matched_compute ((alike.advanced i).lowered i.early) heaps values
    exact numbers.operands _ ws here.holds.upper count
  · intro ρ₁ _ _ m₁ m₁' _ alike₁ _
    exact .ok (.refl ρ₁) alike₁ .none

/-- The operands that an instruction takes, if it takes one. -/
theorem exists_top (takes : i.op.takes point.args = 1) :
  ∃ low v w, m.operandBase ≤ low ∧ m.stack.Holds low ([] ++ [v]) ∧ m'.stack.Holds low ([] ++ [w])
    ∧ v.Alike ρ w ∧ m.stack.cells[m.stack.sp - 1]? = some (.value v)
  := by
  obtain ⟨us, v, rfl, -⟩ := here.exists_top takes
  have top := here.holds.upper
  obtain ⟨ws, top', values⟩ := alike.stack.holds top
  cases values with
  | @cons _ w _ _ first rest =>
    cases rest with
    | nil =>
      refine ⟨_, v, w, Nat.le_add_right _ _, top, top', first, ?_⟩
      have found := top.cell 0 v rfl
      rw [top.sp_eq]
      exact found

theorem jumpIf (truth : Bool) (jump : i.op = if truth then .jumpIfTrue else .jumpIfFalse)
    (numbers : m.NumbersAt i) :
  Matched YieldsAlike ρ (execute i (m.advanced i)) (execute i (m'.advanced i))
  := by
  have condition : i.op = .jumpIfTrue ∨ i.op = .jumpIfFalse ∨ i.op = .invoke := by
    cases truth with
    | true => exact .inl jump
    | false => exact .inr (.inl jump)
  obtain ⟨low, v, w, -, held, held', values, top⟩ :=
    alike.exists_top here (Op.takes_of_condition jump _)
  obtain rfl := values.eq_of_plain (numbers.top condition v top)
  have left := (alike.advanced i).lowered 1
  rw [execute_jumpIf (m := m.advanced i) jump held, execute_jumpIf (m := m'.advanced i) jump held']
  split
  · exact .ok (.refl ρ) (left.atPc _) .none
  · exact .ok (.refl ρ) left .none

include framed

/-- A call of a function that has as many parameters as there are arguments. -/
theorem invoke (heaps : Heap.Alike ρ m.heap m'.heap) (call : i.op = .invoke)
    (timeless : m.Timeless) (numbers : m.NumbersAt i) (fits : m.ArityFits point.args) :
  Matched YieldsAlike ρ (execute i (m.advanced i)) (execute i (m'.advanced i))
  := by
  obtain ⟨us, args, v, rfl, count, depth, top⟩ := here.call_operands call
  let site := (m.advanced i).atPc i.pc
  let site' := (m'.advanced i).atPc i.pc
  have sites : site.Alike ρ site' := (alike.advanced i).atPc i.pc
  have held : site.stack.Holds (m.operandBase + us.length) (args ++ [v]) := by
    have whole := here.holds
    rw [List.append_assoc] at whole
    exact whole.upper
  have upper : site.stack.Holds _ ([] ++ [v]) := held.upper
  have lower : (site.lowered 1).stack.Holds (m.operandBase + us.length) args := held.lowered
  have number : v.handle? = none := numbers.top (.inr (.inr call)) v top
  obtain ⟨ws, upper', values⟩ := sites.stack.holds upper
  obtain rfl : [] ++ [v] = ws := Value.Alike.list_eq_of_plain values (by simpa using number)
  have left := sites.lowered 1
  obtain ⟨args', lower', arguments⟩ := left.stack.holds lower
  rw [execute_invoke call, execute_invoke call]
  refine Matched.bind (R := fun _ _ _ => True) ?_ ?_
  · cases found : m.exe.functions[v.bits.toNat]? with
    | none =>
        have found' : site'.exe.functions[v.bits.toNat]? = none := by
          rw [sites.exe]
          exact found
        rw [invoke_of_none upper found, invoke_of_none upper' found']
        exact .error (.refl ρ) left
    | some f =>
        have found' : site'.exe.functions[v.bits.toNat]? = some f := by
          rw [sites.exe]
          exact found
        have params := fits v f top found
        have sp := lower.sp_eq
        rw [invoke_eq upper found, invoke_eq upper' found', sites.registers]
        split
        · refine (matched_callNative (m := site.lowered 1) left heaps timeless framed.linked found
            lower lower' arguments (by omega) ?_).bind ?_
          · intro bound
            have arity : 1 = f.params.length := framed.linked _ _ _ bound found
            obtain ⟨w, rfl⟩ := List.length_eq_one_iff.1 (show args.length = 1 by omega)
            have there := held.cell 0 w rfl
            have height := held.sp_eq
            have argument := numbers.argument call v w top bound
            change m.stack.sp = m.operandBase + us.length + 2 at height
            rw [height] at argument
            simpa using argument there
          · intro ρ₁ _ _ m₁ m₁' _ alike₁ _
            refine .ok (.refl ρ₁) ?_ trivial
            exact alike₁.onRegisters fun registers => { registers with pc := registers.pc + 1 }
        · exact matched_enterFunction left _ (by omega) _
  · intro ρ₁ _ _ m₁ m₁' _ alike₁ _
    exact .ok (.refl ρ₁) alike₁ .none

include compiled

theorem ret (returns : i.op = .ret) :
  Matched YieldsAlike ρ (execute i (m.advanced i)) (execute i (m'.advanced i))
  := by
  obtain ⟨index, f, info, running, found, frame, size⟩ := here.exists_frame framed compiled returns
  obtain ⟨low, v, w, above, held, held', values, -⟩ := alike.exists_top here (by rw [returns]; rfl)
  have record := Stack.callInfo?_eq_some.2 frame.record
  have le := here.holds.le_sp
  have fits := here.holds.fits
  have place : f.params.length < f.frameSize := by
    unfold Function.frameSize Frame.recordSize
    omega
  have record' := alike.callInfo?_eq (by omega) record
  have base' : m'.registers.base = m.registers.base := by rw [alike.registers]
  have inside : m.registers.base < m.stack.cells.size := by omega
  have inside' : m'.registers.base < m'.stack.cells.size := by
    rw [base', alike.stack.size_eq]
    exact inside
  rw [← base'] at record'
  let site := (m.advanced i).atPc i.pc
  let site' := (m'.advanced i).atPc i.pc
  have sites : site.Alike ρ site' := (alike.advanced i).atPc i.pc
  have current' : site'.registers.current = some index := by
    rw [sites.registers]
    exact running
  have found' : site'.exe.functions[index]? = some f := by
    rw [sites.exe]
    exact found
  rw [execute_ret returns, execute_ret returns,
    returnValue_eq (m := site) held running found record inside,
    returnValue_eq (m := site') held' current' found' record' inside']
  refine .ok (.refl ρ) ?_ ?_
  · apply sites.returned info values
    change m.registers.base < m.stack.sp
    omega
  · split
    · exact .some values
    · exact .none

theorem pushStack (inRange : p.SlotsInRange) {kind : SlotKind} (load : i.op = .pushStack kind) :
  Matched YieldsAlike ρ (execute i (m.advanced i)) (execute i (m'.advanced i))
  := by
  obtain ⟨v, inside, found, executed⟩ := here.execute_load framed compiled inRange load
  have le := here.holds.le_sp
  obtain ⟨c, found', cells⟩ := alike.stack.exists_cell (by omega) found
  cases cells with
  | @value _ w values =>
    rw [← alike.registers] at found'
    rw [executed, execute_pushStack (m := m'.advanced i) load found']
    apply (matched_push (alike.advanced i) values).bind
    intro ρ₁ _ _ m₁ m₁' _ alike₁ _
    exact .ok (.refl ρ₁) alike₁ .none

theorem popStack (inRange : p.SlotsInRange) {kind : SlotKind} (store : i.op = .popStack kind) :
  Matched YieldsAlike ρ (execute i (m.advanced i)) (execute i (m'.advanced i))
  := by
  obtain ⟨inside, -⟩ := here.addressed framed compiled inRange (.inr store)
  obtain ⟨low, v, w, -, held, held', values, -⟩ := alike.exists_top here (by rw [store]; rfl)
  have le := here.holds.le_sp
  have fits := here.holds.fits
  have small : m.registers.base + i.number < m.stack.cells.size := by omega
  have small' : m'.registers.base + i.number < m'.stack.cells.size := by
    rw [alike.registers, alike.stack.size_eq]
    exact small
  have left := (alike.advanced i).lowered 1
  rw [execute_popStack (m := m.advanced i) store held small,
    execute_popStack (m := m'.advanced i) store held' small']
  refine .ok (.refl ρ) ?_ .none
  rw [(alike.advanced i).registers]
  exact left.withStack (left.stack.set _ values)

/-- Executing an instruction comes to the same on alike machines. -/
theorem execute (heaps : Heap.Alike ρ m.heap m'.heap) (inRange : p.SlotsInRange)
    (timeless : m.Timeless) (numbers : m.NumbersAt i)
    (calls : i.op = .invoke → m.ArityFits point.args) :
  Matched YieldsAlike ρ (Machine.execute i (m.advanced i)) (Machine.execute i (m'.advanced i))
  := by
  have proper := compiled.proper inRange here.listed
  have plain (plainOp : i.op.isPlain) :=
    alike.plain here heaps (here.reads_eq proper plainOp) plainOp numbers
  cases op : i.op with
  | pushStack kind => apply alike.pushStack framed here compiled inRange op
  | popStack kind => apply alike.popStack framed here compiled inRange op
  | jump =>
    rw [execute_jump op, execute_jump op]
    exact .ok (.refl ρ) ((alike.advanced i).atPc _) .none
  | jumpIfTrue => apply alike.jumpIf here true op numbers
  | jumpIfFalse => apply alike.jumpIf here false op numbers
  | invoke => apply alike.invoke framed here heaps op timeless numbers (calls op)
  | ret => apply alike.ret framed here compiled op
  | _ => exact plain (by rw [op]; rfl)

end

end Alike

/-! ### Collections -/

/-- The threshold can be raised, if a collection is due. -/
def CanCollect (m : Machine) : Prop :=
  m.heap.needsCollection → m.heap.threshold + m.heap.increment < 2 ^ 64

/-- A collection that is due leaves alone what can be reached. -/
theorem exists_collectIfDue_eq (sound : m.heap.Sound) (room : m.CanCollect) :
  ∃ h : Heap, collectIfDue m = .ok () (m.withHeap h) ∧ h.WellFormed
    ∧ ∀ a, m.heap.Reaches m.roots a → h.get? a = m.heap.get? a
  := by
  rw [collectIfDue_eq]
  split
  · next due =>
      have collected := collect_eq m
      rw [if_pos (room due)] at collected
      rw [bind_of_ok collected]
      refine ⟨_, rfl, ((sound.reclaim m.roots).withThreshold _).wellFormed, ?_⟩
      intro a reached
      exact sound.wellFormed.get?_reclaim reached
  · exact ⟨m.heap, rfl, sound.wellFormed, fun _ _ => rfl⟩

/-- The references of globals are roots. -/
theorem mem_roots_of_global {k : Nat} (found : m.globals[k]? = some v) {a : Handle}
    (refers : v.handle? = some a) :
  a ∈ m.roots
  := by
  have listed : v ∈ m.globals.toList := (Array.mem_of_getElem? found).val
  exact List.mem_append_left _ (List.mem_filterMap.2 ⟨v, listed, refers⟩)

/-- Machines with other heaps, in which what can be reached is as it was. -/
theorem Alike.collected (alike : m.Alike ρ m') (heaps : Heap.Alike ρ m.heap m'.heap)
    (sound : m.heap.Sound) (sound' : m'.heap.Sound) (small : m.heap.Small)
    (small' : m'.heap.Small) {h h' : Heap} (wf : h.WellFormed) (wf' : h'.WellFormed)
    (kept : ∀ a, m.heap.Reaches m.roots a → h.get? a = m.heap.get? a)
    (kept' : ∀ a, m'.heap.Reaches m'.roots a → h'.get? a = m'.heap.get? a) :
  (m.withHeap h).Alike (Heap.Alike.reached ρ m.heap m.roots m'.heap m'.roots) (m'.withHeap h')
    ∧ Heap.Alike (Heap.Alike.reached ρ m.heap m.roots m'.heap m'.roots) h h'
  := by
  have left := (heaps.restrict sound sound' small small' m.roots m'.roots).congr wf wf'
    (fun a b pair => kept a pair.2.1) (fun a b pair => kept' b pair.2.2)
  refine ⟨⟨alike.exe, alike.natives, alike.registers, alike.output, ?_, ?_, fun _ _ => left⟩, left⟩
  · refine ⟨alike.stack.sp_eq, alike.stack.limit_eq, alike.stack.size_eq, ?_⟩
    intro k c c' used found found'
    have cells := alike.stack.cell k c c' used found found'
    have used' : k < m'.stack.sp := by rw [alike.stack.sp_eq]; exact used
    cases cells with
    | call info => exact .call info
    | value values =>
      apply Cell.Alike.value
      apply heaps.reached_of_root values
      · exact fun a refers => List.mem_append_right _ (Stack.mem_roots used found refers)
      · exact fun b refers => List.mem_append_right _ (Stack.mem_roots used' found' refers)
  · refine ⟨alike.globals.size_eq, ?_⟩
    intro k v w found found'
    apply heaps.reached_of_root (alike.globals.each k v w found found')
    · exact fun a refers => mem_roots_of_global found refers
    · exact fun b refers => mem_roots_of_global found' refers

/-! ### Steps -/

/-- The next instruction reads no reference as a number. -/
def ReadsNumbers (m : Machine) : Prop :=
  ∀ i, fetch m.code m.registers.pc = .ok i → m.NumbersAt i

theorem Thinned.numbersAt (thinned : m.Thinned m') {i : Instruction} (numbers : m.NumbersAt i) :
  m'.NumbersAt i
  := by
  have fewer := thinned.get?
  obtain ⟨host, rfl⟩ := thinned.same
  refine ⟨?_, numbers.top, numbers.argument⟩
  intro low vs holds count
  have before := numbers.operands low vs holds count
  obtain ⟨pc, op, operand⟩ := i
  cases op with
  | popArray kind =>
    refine ⟨before.1, ?_⟩
    rintro o ⟨handle, named, found⟩
    apply before.2 o ⟨handle, named, fewer handle o found⟩
  | newArrayLiteral kind =>
    cases kind with
    | _ => exact before
  | _ => exact before

/-- What a step has come to is the same up to the pairing. -/
inductive NextAlike (ρ : Pairing) : Next → Next → Prop
  | running : NextAlike ρ .running .running
  | finished {r r' : Option Value} : YieldsAlike ρ r r' → NextAlike ρ (.finished r) (.finished r')

/-- A step comes to the same on alike machines, wherever collections are due. -/
theorem Alike.step {p : Program} {entry entry' : Nat} (alike : m.Alike ρ m')
    (sheltered : m.Sheltered p entry) (sheltered' : m'.Sheltered p entry')
    (inRange : p.SlotsInRange) (timeless : m.Timeless) (calls : m.CallFits p)
    (numbers : m.ReadsNumbers) (small : m.heap.Small) (small' : m'.heap.Small)
    (room : m.CanCollect) (room' : m'.CanCollect) :
  ∃ ρ', Matched NextAlike ρ' (Machine.step m) (Machine.step m')
  := by
  obtain ⟨compiled, -, framed, guarded⟩ := sheltered
  have sound := guarded.secure.sound
  have sound' := sheltered'.guarded.secure.sound
  obtain ⟨h, collected, wf, kept⟩ := exists_collectIfDue_eq sound room
  obtain ⟨h', collected', wf', kept'⟩ := exists_collectIfDue_eq sound' room'
  obtain ⟨alike₁, heaps₁⟩ := alike.collected (alike.heap small small') sound sound' small small'
    wf wf' kept kept'
  refine ⟨Heap.Alike.reached ρ m.heap m.roots m'.heap m'.roots, ?_⟩
  rw [step_eq, step_eq, collected, collected']
  dsimp only
  rw [alike₁.code_eq, alike₁.registers]
  split
  · exact .ok (.refl _) alike₁ (.finished .none)
  · cases fetched : fetch (m.withHeap h).code (m.withHeap h).registers.pc with
    | error e => exact .error (.refl _) alike₁
    | ok i =>
        obtain ⟨point, vs, here, pc⟩ := framed.at_fetched compiled fetched
        have thinned := guarded.collectIfDue
        rw [collected] at thinned
        have numbers₁ := thinned.2.numbersAt (numbers i fetched)
        have executed := alike₁.execute (framed.hosted _) (here.hosted _) compiled heaps₁ inRange
          timeless numbers₁ fun call => calls point here.listed pc (here.op ▸ call)
        dsimp only
        generalize Machine.execute i ((m.withHeap h).advanced i) = r at executed
        generalize Machine.execute i ((m'.withHeap h').advanced i) = r' at executed
        cases executed with
        | error within alike₂ => exact .error within alike₂
        | ok within alike₂ yields =>
          cases yields with
          | none => exact .ok within alike₂ .running
          | some values => exact .ok within alike₂ (.finished (.some values))

end Machine

end Bytecode
