import Mathlib
import Bytecode.Proofs.Machine.Closed
import Bytecode.Proofs.Machine.Integrity
import Bytecode.Proofs.Machine.Records
import Bytecode.Proofs.Native

/-!
# Control flow stays in the code

When a machine runs closed code, whatever its stack looks like, it fetches only instructions of the
code that it is in. What carries this from step to step is that a call record, wherever it lies on
the stack and whether it is still in use or not, names the place of a call in the code of its
caller: records are made by calls only, and are never changed afterwards. Nothing depends on how
many arguments are passed.
-/

namespace Bytecode

open Machine

/-! ### Machines on track -/

/-- A return along the call record leads back behind a call. -/
def Program.ReturnsTo (p : Program) (info : CallInfo) : Prop :=
  ∀ current, info.caller = callerOf current →
    ∃ point ∈ p.points current, point.pc = info.pc ∧ point.op = .invoke

namespace Machine

/-- All call records on the stack, in use or not, lead back to calls. -/
def Recorded (p : Program) (m : Machine) : Prop :=
  ∀ k info, m.stack.callInfo? k = some info → p.ReturnsTo info

/-- The machine is at an instruction of its code, or at the end of the top level. -/
def Stands (p : Program) (m : Machine) : Prop :=
  ∃ depth, p.Planned m.registers.current m.registers.pc depth

/-- The native functions that are bound raise no faults on behalf of code. -/
def Undecoding (m : Machine) : Prop :=
  ∀ (index : Nat) native, (m.natives[index]?).join = some native → native.Undecoding

/-- A failure in a machine whose call records are in order. It is not due to undecodable code,
unless a native function says so. -/
def Halts (p : Program) (trap : Trap) (m : Machine) : Prop :=
  (m.Undecoding → ∀ e, trap ≠ .error (.decode e)) ∧ m.Recorded p

variable {p : Program} {m : Machine} {i : Instruction}

section

variable (recorded : m.Recorded p)
include recorded

/-- What a tame action does to a machine whose call records are in order. -/
theorem Recorded.tame {α : Type} {x : MachineM α} (tame : Tame x) :
  Ends (fun _ m' => m'.Recorded p ∧ m'.registers = m.registers) (Halts p) (x m)
  := by
  apply (tame m).mono
  · exact fun _ m' kept => ⟨fun k info record => recorded k info (kept.2 k info record), kept.1⟩
  · exact fun _ m' kept =>
      ⟨fun _ => kept.1, fun k info record => recorded k info (kept.2 k info record)⟩

theorem Recorded.pushCall {info : CallInfo} (back : p.ReturnsTo info) :
  Ends (fun _ m' => m'.Recorded p) (Halts p) (onStack (Stack.pushCall info) m)
  := by
  have outcome := Stack.modest_pushCell (.call info) m.stack
  have adds {s : Stack} (added : m.stack.AddsRecord (.call info) s) :
      ({ m with stack := s } : Machine).Recorded p := by
    intro k info' record
    rcases added k info' record with old | new
    · apply recorded k info' old
    · cases new
      exact back
  rw [onStack_eq, Stack.pushCall]
  cases ran : Stack.pushCell (.call info) m.stack with
  | ok _ s =>
    rw [ran] at outcome
    apply adds outcome
  | error trap s =>
    rw [ran] at outcome
    refine ⟨fun _ => ?_, adds outcome.2⟩
    rcases outcome.1 with rfl | ⟨limit, rfl⟩
    · exact nofun
    · exact nofun

/-- A function is entered at its start. -/
theorem Recorded.enterFunction {caller : Caller}
    (back : p.ReturnsTo ⟨caller, m.registers.pc, m.registers.base⟩) (index : Nat) (f : Function) :
  Ends (fun _ m' => m'.Recorded p ∧ m'.registers.current = some index ∧ m'.registers.pc = 0)
    (Halts p) (enterFunction index f caller m)
  := by
  let entered (sp : Nat) : MachineM Unit := do
    onStack (Stack.pushCall ⟨caller, m.registers.pc, m.registers.base⟩)
    pushLocals f.locals
    modify fun m => { m with registers :=
      { m.registers with current := some index, pc := 0, base := sp - f.params.length } }
  have reserved := recorded.tame
    (tame_onStack (Stack.modest_reserve (Frame.recordSize + f.locals.length)))
  apply reserved.bind
  rintro _ m₁ ⟨recorded₁, -⟩
  change Ends _ _ ((if m₁.stack.sp < f.params.length then crash >>= fun _ => entered m₁.stack.sp
    else entered m₁.stack.sp) m₁)
  split
  · exact ⟨fun _ => nofun, recorded₁⟩
  · apply (recorded₁.pushCall back).bind
    intro _ m₂ recorded₂
    apply (recorded₂.tame (tame_of_made (made_pushLocals f.locals))).bind
    rintro _ m₃ ⟨recorded₃, -⟩
    exact ⟨recorded₃, rfl, rfl⟩

theorem Recorded.callNative (index : Nat) (f : Function) :
  Ends (fun _ m' => m'.Recorded p ∧ m'.registers = m.registers) (Halts p) (callNative index f m)
  := by
  rw [Machine.callNative, bind_of_ok (get_eq m)]
  cases bound : (m.natives[index]?).join with
  | none => exact ⟨fun _ _ decode => (by cases decode), recorded⟩
  | some native =>
    have same := SameProgram.law.onValues (.top native.arity) m
    have top := recorded.tame (tame_of_made (.onStack (.top native.arity)))
    cases read : onStack (Stack.top native.arity) m with
    | error trap m₁ =>
      rw [read] at top
      dsimp only
      rw [bind_of_error read]
      exact top
    | ok args m₁ =>
      rw [read] at top same
      obtain ⟨recorded₁, registers₁⟩ := top
      have called : Ends (fun _ m' => m'.Recorded p ∧ m'.registers = m.registers) (Halts p)
          (onHost (native.run args) m₁) := by
        rw [onHost_eq]
        cases ran : native.run args m₁.host with
        | ok v host => exact ⟨recorded₁, registers₁⟩
        | error trap host =>
          refine ⟨?_, recorded₁⟩
          rintro safe e rfl
          apply safe index native _ args m₁.host e host ran
          rw [show m₁.natives = m.natives from same.natives, bound]
      dsimp only
      rw [bind_of_ok read]
      apply called.bind
      rintro result m₂ ⟨recorded₂, registers₂⟩
      have made : Made (onStack (Stack.shrink native.arity) >>= fun _ => push result) :=
        (Made.onStack (.shrink _)).bind fun _ => .onStack (.push result)
      apply (recorded₂.tame (tame_of_made made)).mono
      · exact fun _ m' kept => ⟨kept.1, kept.2.trans registers₂⟩
      · exact fun _ _ halts => halts

/-- A call goes on behind itself, or at the start of a function. -/
theorem Recorded.invoke
    (back : p.ReturnsTo ⟨callerOf m.registers.current, m.registers.pc, m.registers.base⟩) :
  Ends (fun _ m' => m'.Recorded p
      ∧ ((m'.registers.current = m.registers.current ∧ m'.registers.pc = m.registers.pc + 1)
        ∨ ∃ index f, m.exe.functions[index]? = some f ∧ f.isNative = false
          ∧ m'.registers.current = some index ∧ m'.registers.pc = 0))
    (Halts p) (invoke m)
  := by
  have kept := SameProgram.law.onValues .pop m
  have popped := recorded.tame (tame_of_made (.onStack .pop))
  cases ran : onStack Stack.pop m with
  | error trap m₁ =>
    rw [ran] at popped
    change Ends _ _ ((onStack Stack.pop >>= _) m)
    rw [bind_of_error ran]
    exact popped
  | ok v m₁ =>
    rw [ran] at popped kept
    obtain ⟨recorded₁, registers⟩ := popped
    have exe : m₁.exe = m.exe := kept.exe
    change Ends _ _ ((onStack Stack.pop >>= _) m)
    rw [bind_of_ok ran, bind_of_ok (get_eq m₁)]
    cases found : m₁.exe.functions[v.bits.toNat]? with
    | none => exact ⟨fun _ _ decode => (by cases decode), recorded₁⟩
    | some f =>
      dsimp only
      split
      · apply (recorded₁.callNative _ f).bind
        rintro _ m₂ ⟨recorded₂, registers₂⟩
        refine ⟨recorded₂, .inl ⟨?_, ?_⟩⟩
        · change m₂.registers.current = _
          rw [registers₂, registers]
        · change m₂.registers.pc + 1 = _
          rw [registers₂, registers]
      · next native =>
          rw [← registers] at back
          apply (recorded₁.enterFunction back _ f).mono
          · rintro _ m' ⟨recorded', current, pc⟩
            exact ⟨recorded', .inr ⟨_, f, exe ▸ found, by simpa using native, current, pc⟩⟩
          · exact fun _ _ halts => halts

/-- A return goes on behind a call, unless it goes back to the host. -/
theorem Recorded.returnValue :
  Ends (fun ended m' => m'.Recorded p ∧ (ended = none → ∃ point ∈ p.points m'.registers.current,
      point.op = .invoke ∧ m'.registers.pc = point.pc + 1))
    (Halts p) (returnValue m)
  := by
  apply (recorded.tame (tame_of_made (.onStack .pop))).bind
  rintro v m₁ ⟨recorded₁, -⟩
  rw [bind_of_ok (get_eq m₁)]
  cases m₁.registers.current with
  | none => exact ⟨recorded₁, fun ended => absurd ended (Option.some_ne_none v)⟩
  | some index =>
    dsimp only
    iterate 3 rw [bind_of_ok (get_eq m₁)]
    cases record : m₁.stack.callInfo? (m₁.registers.base + Frame.recordOffset
        ((m₁.exe.functions[index]?.map fun f => f.params.length).getD 0)) with
    | none => exact ⟨fun _ _ decode => (by cases decode), recorded₁⟩
    | some info =>
      have back := recorded₁ _ info record
      let dropped : Machine := { m₁ with stack := { m₁.stack with sp := m₁.registers.base } }
      have recorded₂ : dropped.Recorded p := recorded₁
      change Ends _ _ ((push v >>= _) dropped)
      apply (recorded₂.tame (tame_of_made (.onStack (.push v)))).bind
      rintro _ m₃ ⟨recorded₃, -⟩
      cases goesOn : info.caller with
      | host => exact ⟨recorded₃, fun ended => absurd ended (Option.some_ne_none v)⟩
      | topLevel =>
        obtain ⟨point, listed, pc, call⟩ := back none goesOn
        refine ⟨recorded₃, fun _ => ⟨point, listed, call, ?_⟩⟩
        rw [pc]
      | function caller =>
        obtain ⟨point, listed, pc, call⟩ := back (some caller) goesOn
        refine ⟨recorded₃, fun _ => ⟨point, listed, call, ?_⟩⟩
        rw [pc]

end

theorem pushConstant_of_found {index : Nat} {select : Constant → Option (MachineM Value)}
    {c : Constant} {x : MachineM Value} (found : m.exe.constants[index]? = some c)
    (selected : select c = some x) :
  pushConstant index select m = (x >>= push) m
  := by
  rw [pushConstant, bind_of_ok (get_eq m), found, Option.bind_some, selected]

/-- The machine has an instruction before it that was planned for the place where it is. -/
structure Poised (p : Program) (point : Point) (i : Instruction) (m : Machine) : Prop where
  recorded : m.Recorded p
  listed : point ∈ p.points m.registers.current
  encodes : ∃ lines, point.Encodes m.exe.constants lines i

/-- An instruction after which control is where it should be. -/
def Proceeds (p : Program) : EStateM.Result Trap Machine (Option Value) → Prop :=
  Ends (fun ended m' => m'.Recorded p ∧ (ended = none → m'.Stands p)) (Halts p)

namespace Poised

variable {point : Point}

section

variable (poised : m.Poised p point i)
include poised

theorem op_eq :
  i.op = point.op
  := by
  obtain ⟨_, encodes⟩ := poised.encodes
  apply encodes.2.1

theorem advanced :
  (m.advanced i).Recorded p
  := poised.recorded

theorem planned {pc depth : Nat} (successor : (pc, depth) ∈ point.successors) :
  p.Planned m.registers.current pc depth
  := (p.flows_points m.registers.current point poised.listed).2 _ successor

theorem proper :
  point.toDirective.Proper (p.frame m.registers.current).1 fun _ => True
  := by
  apply Program.proper_of_mem_points _ _ poised.listed
  · exact fun _ _ _ _ _ _ _ _ => trivial
  · exact fun _ _ _ => trivial

/-- An instruction that neither jumps nor returns may go on behind itself. -/
theorem behind (noJump : i.op.isJump = false) (noReturn : i.op ≠ .ret) :
  p.Planned m.registers.current i.nextPc (point.depth - point.takes + point.leaves)
  := by
  obtain ⟨_, encodes⟩ := poised.encodes
  apply poised.planned
  rw [poised.op_eq] at noJump noReturn
  rw [Point.successors_of_plain noJump noReturn, Instruction.nextPc, encodes.1, encodes.2.1,
    Point.next]
  apply List.mem_singleton_self

end

theorem straight (poised : m.Poised p point i) (straight : i.op.isStraight)
    {x : MachineM (Option Value)} (tame : Tame x)
    (same : execute i (m.advanced i) = x (m.advanced i)) :
  Proceeds p (execute i (m.advanced i))
  := by
  simp only [Op.isStraight, Bool.and_eq_true, Bool.not_eq_true', bne_iff_ne, ne_eq] at straight
  rw [same]
  apply (poised.advanced.tame tame).mono
  · rintro ended m' ⟨kept, registers⟩
    refine ⟨kept, fun _ => ?_⟩
    unfold Stands
    rw [registers]
    exact ⟨_, poised.behind straight.1.1 straight.2⟩
  · exact fun _ _ halts => halts

section

variable (poised : m.Poised p point i)
include poised

/-- A constant that is pushed is there. -/
theorem constant (shaped : i.op.isStraight) {c : Constant} {x : MachineM Value}
    {select : Constant → Option (MachineM Value)} (operand : point.operand = .constant c)
    (selected : select c = some x) (off : OffStack x) (ordinary : Ordinary x)
    (pushes : execute i = pushConstant i.number select >>= fun _ => pure none) :
  Proceeds p (execute i (m.advanced i))
  := by
  obtain ⟨_, encodes⟩ := poised.encodes
  have made : Made (x >>= fun v => push v >>= fun _ => (pure none : MachineM (Option Value))) :=
    .pushed (.offStack off ordinary) (.pure none)
  have found : (m.advanced i).exe.constants[i.number]? = some c := encodes.constant_eq operand
  apply poised.straight shaped (tame_of_made made)
  rw [pushes, bind_congr_at (pushConstant_of_found found selected), bind_assoc]

/-- A jump goes where it is planned to. -/
theorem target (jump : i.op.isJump) :
  ∃ depth, p.Planned m.registers.current i.number depth
  := by
  obtain ⟨_, encodes⟩ := poised.encodes
  rw [poised.op_eq] at jump
  obtain ⟨depth, successor⟩ := Point.target_mem_successors jump
  rw [encodes.target_eq poised.proper jump] at successor
  exact ⟨depth, poised.planned successor⟩

theorem jump (op : i.op = .jump) :
  Proceeds p (execute i (m.advanced i))
  := by
  obtain ⟨depth, planned⟩ := poised.target (by rw [op]; rfl)
  rw [execute_jump op]
  exact ⟨poised.recorded, fun _ => ⟨depth, planned⟩⟩

/-- A conditional jump is taken or goes on behind itself. -/
theorem jumpIf (truth : Bool) (op : i.op = if truth then .jumpIfTrue else .jumpIfFalse) :
  Proceeds p (execute i (m.advanced i))
  := by
  have isJump : i.op.isJump := by
    rw [op]
    cases truth with
    | false => rfl
    | true => rfl
  have runs : execute i = Machine.jumpIf truth i.number >>= fun _ => pure none := by
    obtain ⟨pc, _, operand⟩ := i
    cases truth with
    | false | true =>
      cases op
      rfl
  obtain ⟨depth, planned⟩ := poised.target isJump
  have falls : ∃ depth, p.Planned m.registers.current i.nextPc depth := by
    obtain ⟨_, encodes⟩ := poised.encodes
    refine ⟨point.depth - 1, poised.planned ?_⟩
    rw [poised.op_eq] at op
    have next : i.nextPc = point.next := by
      rw [Instruction.nextPc, encodes.1, encodes.2.1, Point.next]
    rw [next, Point.successors, op]
    cases truth with
    | false | true => exact List.mem_cons_of_mem _ (List.mem_singleton_self _)
  rw [runs]
  have popped := poised.advanced.tame (tame_of_made (.onStack .pop))
  apply Ends.bind (Q := fun _ m' => m'.Recorded p ∧ m'.Stands p)
  · apply popped.bind
    rintro v m₁ ⟨recorded₁, registers⟩
    split
    · refine ⟨recorded₁, depth, ?_⟩
      change p.Planned m₁.registers.current i.number depth
      rw [registers]
      exact planned
    · refine ⟨recorded₁, ?_⟩
      unfold Stands
      rw [registers]
      exact falls
  · exact fun _ _ stands => ⟨stands.1, fun _ => stands.2⟩

theorem invoke (compiled : CompiledFrom p m.exe) (op : i.op = .invoke) :
  Proceeds p (execute i (m.advanced i))
  := by
  obtain ⟨_, encodes⟩ := poised.encodes
  have here : ((m.advanced i).atPc i.pc).Recorded p := poised.recorded
  have back : p.ReturnsTo ⟨callerOf m.registers.current, i.pc, m.registers.base⟩ := by
    intro current same
    have current_eq : m.registers.current = current := by
      cases running : m.registers.current with
      | none =>
        cases current with
        | none => rfl
        | some index =>
          rw [running] at same
          cases same
      | some index' =>
        rw [running] at same
        cases current with
        | none => cases same
        | some index =>
          cases same
          rfl
    subst current_eq
    exact ⟨point, poised.listed, encodes.1.symm, poised.op_eq.symm.trans op⟩
  rw [execute_invoke op]
  apply Ends.bind (here.invoke back)
  rintro _ m' ⟨recorded', ⟨current, pc⟩ | ⟨index, f, found, code, current, pc⟩⟩
  · have behind := poised.behind (by rw [op]; rfl) (by rw [op]; exact nofun)
    have size : i.nextPc = i.pc + 1 := by
      rw [Instruction.nextPc, op]
      rfl
    rw [size] at behind
    refine ⟨recorded', fun _ => ?_⟩
    unfold Stands
    rw [current, pc]
    exact ⟨_, behind⟩
  · refine ⟨recorded', fun _ => ⟨0, ?_⟩⟩
    rw [current, pc]
    exact .inl (compiled.lands_points found code)

theorem ret (op : i.op = .ret) :
  Proceeds p (execute i (m.advanced i))
  := by
  have here : ((m.advanced i).atPc i.pc).Recorded p := poised.recorded
  rw [execute_ret op]
  apply here.returnValue.mono
  · rintro ended m' ⟨recorded', goesOn⟩
    refine ⟨recorded', fun none => ?_⟩
    obtain ⟨call, listed, invokes, pc⟩ := goesOn none
    refine ⟨call.depth - call.takes + call.leaves, ?_⟩
    have next : call.next = m'.registers.pc := by
      rw [Point.next, invokes, pc]
      rfl
    rw [← next]
    apply (p.flows_points m'.registers.current call listed).2 (call.next, _)
    rw [Point.successors_of_plain (by rw [invokes]; rfl) (by rw [invokes]; decide)]
    apply List.mem_singleton_self
  · exact fun _ _ halts => halts

/-- After an instruction that was planned control is where it should be. -/
theorem execute (compiled : CompiledFrom p m.exe) :
  Proceeds p (execute i (m.advanced i))
  := by
  have proper := poised.proper
  rw [Directive.Proper, ← poised.op_eq] at proper
  have made (straight : i.op.isStraight) (noConstant : i.op.shape? ≠ some .pool) :
      Proceeds p (Machine.execute i (m.advanced i)) :=
    poised.straight straight (tame_of_made (made_execute straight noConstant)) rfl
  obtain ⟨pc, op, operand⟩ := i
  cases op with
  | pushInt | pushDouble =>
    obtain ⟨value, constant⟩ := proper
    apply poised.constant rfl constant rfl (.pure _) (.pure _) rfl
  | pushString =>
    obtain ⟨value, constant⟩ := proper
    apply poised.constant rfl constant rfl (offStack_newString _) (ordinary_newString _) rfl
  | jump => apply poised.jump rfl
  | jumpIfTrue => exact poised.jumpIf true rfl
  | jumpIfFalse => exact poised.jumpIf false rfl
  | invoke => apply poised.invoke compiled rfl
  | ret => apply poised.ret rfl
  | _ =>
    apply made rfl
    intro pool
    cases pool

end

end Poised

/-! ### Runs -/

/-- A collection fails only by a crash. -/
theorem eq_crash_of_collectIfDue {m' : Machine} {trap : Trap}
    (failed : collectIfDue m = .error trap m') :
  trap = .crash
  := by
  rw [collectIfDue_eq] at failed
  split at failed
  · rcases bind_eq_error.1 failed with failed | ⟨_, _, -, failed⟩
    · rw [collect_eq] at failed
      split at failed
      all_goals cases failed
      rfl
    · cases failed
  · cases failed

/-- The machine is in code that was compiled from the program, at one of its instructions. -/
structure OnTrack (p : Program) (m : Machine) : Prop where
  compiled : CompiledFrom p m.exe
  recorded : m.Recorded p
  stands : m.Stands p

/-- The machine is at an instruction planned for the place, or at the end of the top level. -/
theorem OnTrack.place (track : m.OnTrack p) :
  (∃ (k : Nat) (point : Point) (i : Instruction), (p.points m.registers.current)[k]? = some point
      ∧ (decode m.code).instructions[k]? = some i ∧ fetch m.code m.registers.pc = .ok i
      ∧ m.Poised p point i)
    ∨ m.registers.current = none ∧ m.registers.pc = m.code.size
  := by
  obtain ⟨depth, ⟨point, listed, pc, -⟩ | ⟨top, pc, -⟩⟩ := track.stands
  · obtain ⟨block, coded⟩ := track.compiled.exists_code listed
    obtain ⟨k, found⟩ := List.mem_iff_getElem?.1 listed
    obtain ⟨i, decoded, encodes, fetched⟩ :=
      (track.compiled.encodes coded).exists_getElem?_decoded found
    have code : m.code = block.code := by simp [Machine.code, coded]
    rw [encodes.1, pc, ← code] at fetched
    exact .inl ⟨k, point, i, found, by rw [code, decoded], fetched, track.recorded, listed,
      block.lines, encodes⟩
  · have code : m.code = m.exe.topLevel.code := by simp [Machine.code, top, Executable.code?]
    exact .inr ⟨top, by rw [code, track.compiled.topLevel.size_eq, pc, top]⟩

/-- What is fetched is an instruction planned for the place. -/
theorem OnTrack.fetched (track : m.OnTrack p) (inside : m.registers.pc < m.code.size) :
  ∃ (k : Nat) (point : Point) (i : Instruction), (p.points m.registers.current)[k]? = some point
    ∧ (decode m.code).instructions[k]? = some i ∧ fetch m.code m.registers.pc = .ok i
    ∧ m.Poised p point i
  := track.place.resolve_right fun atEnd => Nat.ne_of_lt inside atEnd.2

/-- After a step control is where it should be. -/
theorem OnTrack.step (track : m.OnTrack p) :
  Ends (fun next m' => m'.Recorded p ∧ (next = .running → m'.OnTrack p)) (Halts p) (step m)
  := by
  have program := SameProgram.law.step m
  suffices moved : Ends (fun next m' => m'.Recorded p ∧ (next = .running → m'.Stands p)) (Halts p)
      (Machine.step m) by
    cases ran : Machine.step m with
    | error trap m' =>
      rw [ran] at moved
      exact moved
    | ok next m' =>
      rw [ran] at moved program
      obtain ⟨recorded, stands⟩ := moved
      have exe : m'.exe = m.exe := program.exe
      exact ⟨recorded, fun running => ⟨exe ▸ track.compiled, recorded, stands running⟩⟩
  rw [step_eq]
  obtain ⟨host, collected⟩ := stateOf_collectIfDue m
  cases due : collectIfDue m with
  | error trap m₁ =>
    rw [due] at collected
    obtain rfl : m₁ = { m with host } := collected
    obtain rfl := eq_crash_of_collectIfDue due
    exact ⟨fun _ => nofun, track.recorded⟩
  | ok _ m₁ =>
    rw [due] at collected
    obtain rfl : m₁ = { m with host } := collected
    dsimp only
    split
    · exact ⟨track.recorded, nofun⟩
    · next inside =>
        have track' : { m with host }.OnTrack p :=
          ⟨track.compiled, track.recorded, track.stands⟩
        obtain ⟨-, point, i, -, -, found, poised⟩ := track'.fetched (Nat.not_le.1 inside)
        have proceeds := poised.execute track.compiled
        rw [found]
        dsimp only
        cases ran : Machine.execute i ({ m with host }.advanced i) with
        | error trap m₂ =>
          rw [ran] at proceeds
          exact proceeds
        | ok ended m₂ =>
          rw [ran] at proceeds
          obtain ⟨recorded, stands⟩ := proceeds
          cases ended with
          | none => exact ⟨recorded, fun _ => stands rfl⟩
          | some v => exact ⟨recorded, nofun⟩

theorem OnTrack.of_reaches {Fits : Machine → Prop} {start : Machine} (track : start.OnTrack p)
    (reaches : Reaches Fits start m) :
  m.OnTrack p
  := by
  induction reaches with
  | refl => exact track
  | step _ _ stepped ih =>
    have moved := ih.step
    rw [stepped] at moved
    apply moved.2 rfl

/-- Call records are in order when a run has ended, in whichever way. -/
theorem OnTrack.resume (track : m.OnTrack p) (fuel : Nat) :
  (resume fuel m).2.Recorded p
  := by
  obtain ⟨m', reaches, ends | ends⟩ := exists_resume_eq fuel m
  · rw [ends]
    apply (track.of_reaches reaches).recorded
  · have moved := (track.of_reaches reaches).step
    rw [ends]
    cases ran : Machine.step m' with
    | ok next m'' =>
      rw [ran] at moved
      apply moved.1
    | error trap m'' =>
      rw [ran] at moved
      apply moved.2

theorem OnTrack.restart (compiled : CompiledFrom p m.exe) (recorded : m.Recorded p) :
  m.restart.OnTrack p
  := by
  refine ⟨compiled, recorded, 0, ?_⟩
  rcases p.lands_points_topLevel with lands | empty
  · exact .inl lands
  · exact .inr ⟨rfl, empty.symm, rfl⟩

/-- A call from the host puts the machine at the start of the function. -/
theorem Recorded.beginCall (recorded : m.Recorded p) (compiled : CompiledFrom p m.exe)
    {index : Nat} {f : Function} (found : m.exe.functions[index]? = some f) (args : List Value) :
  Ends (fun result m' => m'.Recorded p ∧ (result = none → m'.OnTrack p)) (Halts p)
    (beginCall index f args m)
  := by
  have kept := SameProgram.law.made (made_pushAll args) m
  have pushed := recorded.tame (tame_of_made (made_pushAll args))
  unfold Machine.beginCall
  cases ran : pushAll args m with
  | error trap m₁ =>
    rw [ran] at pushed
    rw [bind_of_error ran]
    exact pushed
  | ok _ m₁ =>
    rw [ran] at pushed kept
    obtain ⟨recorded₁, -⟩ := pushed
    have exe : m₁.exe = m.exe := kept.exe
    rw [bind_of_ok ran]
    split
    · apply (recorded₁.callNative index f).bind
      rintro _ m₂ ⟨recorded₂, -⟩
      apply (recorded₂.tame (tame_of_made (.onStack .pop))).bind
      rintro v m₃ ⟨recorded₃, -⟩
      exact ⟨recorded₃, nofun⟩
    · next native =>
        have back : p.ReturnsTo ⟨.host, m₁.registers.pc, m₁.registers.base⟩ := by
          intro current same
          cases current with
          | none | some index => cases same
        have same := SameProgram.law.enterFunction index f .host m₁
        have entered := recorded₁.enterFunction back index f
        cases ran' : Machine.enterFunction index f .host m₁ with
        | error trap m₂ =>
          rw [ran'] at entered
          rw [bind_of_error ran']
          exact entered
        | ok _ m₂ =>
          rw [ran'] at entered same
          obtain ⟨recorded₂, current, pc⟩ := entered
          have exe₂ : m₂.exe = m.exe := same.exe.trans exe
          rw [bind_of_ok ran']
          refine ⟨recorded₂, fun _ => ⟨exe₂ ▸ compiled, recorded₂, 0, ?_⟩⟩
          rw [current, pc]
          exact .inl (compiled.lands_points found (by simpa using native))

/-! ### Sessions -/

/-- The host links only native functions that raise no faults on behalf of code. -/
def Usage.undecoding : Usage where
  links registry := ∀ native ∈ registry.natives, native.Undecoding
  args _ _ := True
  fits _ := True

variable {exe : Executable}

theorem Undecoding.of_same {m' : Machine} (natives : m.Undecoding) (same : SameProgram m m') :
  m'.Undecoding
  := by
  unfold Undecoding
  rw [same.natives]
  exact natives

theorem Undecoding.link (natives : m.Undecoding) {registry : Registry}
    (safe : ∀ native ∈ registry.natives, native.Undecoding) :
  (link registry m).2.Undecoding
  := link_bound natives safe

theorem Recorded.enterFromHost (recorded : m.Recorded p) (compiled : CompiledFrom p m.exe)
    (fuel index : Nat) (args : List Value) :
  (enterFromHost fuel index args m).2.Recorded p
  := by
  rcases enterFromHost_eq fuel index args m with same | ⟨f, found, -, same | ⟨m₁, ran, same⟩⟩
  · rw [same]
    exact recorded
  · rw [same]
    exact (recorded.beginCall compiled found args).state (fun _ _ begun => begun.1)
      fun _ _ halts => halts.2
  · have begun := recorded.beginCall compiled found args
    rw [ran] at begun
    rw [same]
    exact (begun.2 rfl).resume fuel

/-- The native functions of a session are those that the host may link. -/
theorem Session.natives (session : Session exe .undecoding m) :
  m.Undecoding
  := by
  induction session with
  | start made =>
    obtain ⟨stack, -, rfl⟩ := Option.map_eq_some_iff.1 made
    intro index native bound
    rw [natives_ofStack] at bound
    cases bound
  | link _ safe ih => exact ih.link safe
  | run fuel _ _ ih => exact ih.of_same (SameProgram.law.run fuel _)
  | call fuel index _ _ _ ih => exact ih.of_same (SameProgram.law.callFunction fuel index _ _)
  | @collect m _ ih => exact ih.of_same (SameProgram.law.collect m)

/-- Between the requests of a host the call records are in order. -/
theorem Session.recorded {usage : Usage} (compiled : CompiledFrom p exe)
    (session : Session exe usage m) :
  m.Recorded p
  := by
  induction session with
  | start made =>
    obtain ⟨stack, fresh, rfl⟩ := Option.map_eq_some_iff.1 made
    intro k info record
    unfold Stack.tryNew at fresh
    split at fresh
    · cases fresh
      rw [Stack.callInfo?_eq_some_iff] at record
      change (Array.replicate _ _)[k]? = _ at record
      rw [Array.getElem?_replicate] at record
      split at record
      all_goals cases record
    · cases fresh
  | link _ _ ih => exact ih
  | @run m fuel session _ ih =>
    have program : CompiledFrom p m.exe := session.exe_eq ▸ compiled
    apply (OnTrack.restart program ih).resume
  | @call m args fuel index session _ _ ih =>
    have program : CompiledFrom p m.exe := session.exe_eq ▸ compiled
    apply ih.enterFromHost program fuel index args
  | @collect m _ ih =>
    obtain ⟨host, collected⟩ := stateOf_collect m
    rw [collected]
    exact ih

theorem Enters.onTrack {entry : Nat} {m' : Machine} (enters : m.Enters entry m')
    (compiled : CompiledFrom p m.exe) (recorded : m.Recorded p) :
  m'.OnTrack p
  := by
  cases enters with
  | run => apply OnTrack.restart compiled recorded
  | @call index f args _ found _ begun =>
    have entered := recorded.beginCall compiled found args
    rw [begun] at entered
    apply entered.2 rfl

/-- The machine is at an instruction that its code decodes to, or at the end of the top level. -/
def AtInstruction (m : Machine) : Prop :=
  (∃ i ∈ (decode m.code).instructions, i.pc = m.registers.pc)
    ∨ m.registers.current = none ∧ m.registers.pc = m.code.size

theorem OnTrack.atInstruction (track : m.OnTrack p) :
  m.AtInstruction
  := by
  rcases track.place with ⟨_, _, i, -, decoded, fetched, -⟩ | atEnd
  · exact .inl ⟨i, List.mem_of_getElem? decoded, fetch_pc fetched⟩
  · exact .inr atEnd

/-- The code of a compiled program is closed, and at every instruction boundary of every run of it
the machine is at an instruction of the code that it is in, so that no step finds undecodable
code or a constant missing. This holds whatever arguments calls pass. -/
theorem atInstruction_of_reaches {p : Program} {exe : Executable} (compiled : compile p = .ok exe) :
  (∀ current block, exe.code? current = some block →
      block.Closed exe.constants current.isSome)
    ∧ ∀ m₀ entry start m, Session exe .undecoding m₀ → m₀.Enters entry start →
      Reaches (fun _ => True) start m →
      m.AtInstruction ∧ ∀ e m', step m ≠ .error (.error (.decode e)) m'
  := by
  have fromProgram := compile_eq_ok compiled
  constructor
  · intro current block coded
    apply fromProgram.closed coded
  · intro m₀ entry start m session enters reaches
    have program : CompiledFrom p m₀.exe := session.exe_eq ▸ fromProgram
    have track := (enters.onTrack program (session.recorded fromProgram)).of_reaches reaches
    refine ⟨track.atInstruction, ?_⟩
    intro e m' failed
    have moved := track.step
    have same := SameProgram.law.step m
    rw [failed] at moved same
    have natives := (session.natives.of_same enters.sameProgram).of_same reaches.sameProgram
    apply moved.1 (natives.of_same same) e rfl

/-- The call in the example leads to an instruction of the function. -/
theorem atInstruction_identityAfter :
  (identityAfter 3).registers.current = some 0 ∧ (identityAfter 3).AtInstruction
  := by
  have compiled : compile identityCall = .ok identityExecutable := by cbv
  have made : new? identityExecutable { initialStackSize := 4, maxStackSize := 8 } 0
      = some identityMachine := rfl
  have reaches : Reaches (fun _ => True) identityMachine.restart (identityAfter 3) :=
    reaches_identityAfter.mono fun _ _ => trivial
  exact ⟨rfl, ((atInstruction_of_reaches compiled).2 _ _ _ _ (.start made) .run reaches).1⟩

end Machine

end Bytecode
