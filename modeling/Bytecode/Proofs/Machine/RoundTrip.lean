import Mathlib
import Bytecode.Proofs.Machine.Integrity

/-!
# Calls come back to their callers

A call of a function with code enters a frame, and the run goes on through calls, returns and
collections, `Machine.Nested`, until it leaves that frame. Meanwhile the call record of the frame
stays in its place, and no cell below the frame is written, `Machine.Inside`: every frame entered
later lies above it, and an instruction writes no cell below the frame that it runs in. So the
return finds the caller as it was, `Machine.CameBack`, with the result in place of the arguments
and the index of the function.
-/

namespace Bytecode

namespace Machine

/-! ### Nesting of calls -/

/-- The function that the call before the machine is of. -/
def callee? (m : Machine) : Option Function :=
  match m.stack.cells[m.stack.sp - 1]? with
  | some (.value v) => m.exe.functions[v.bits.toNat]?
  | _ => none

/-- What an instruction does to the nesting of calls. -/
inductive Turn where
  | enter | leave | stay
  deriving DecidableEq

/-- A call of a function that has code enters a frame, and a return leaves one. -/
def turn (m : Machine) : Turn :=
  match fetch m.code m.registers.pc with
  | .error _ => .stay
  | .ok i =>
    if i.op = .ret then .leave
    else if i.op = .invoke ∧ m.callee?.any (!·.isNative) then .enter
    else .stay

/-- The machines at the instruction boundaries of a run, with the number of frames that have been
entered since its start and not been left. No frame is left that was there at the start. -/
inductive Nested (Fits : Machine → Prop) (start : Machine) : Nat → Machine → Prop
  | refl : Nested Fits start 0 start
  | stay {depth : Nat} {m m' : Machine} :
      Nested Fits start depth m → Fits m → m.turn = .stay → step m = .ok .running m' →
      Nested Fits start depth m'
  | enter {depth : Nat} {m m' : Machine} :
      Nested Fits start depth m → Fits m → m.turn = .enter → step m = .ok .running m' →
      Nested Fits start (depth + 1) m'
  | leave {depth : Nat} {m m' : Machine} :
      Nested Fits start (depth + 1) m → Fits m → m.turn = .leave → step m = .ok .running m' →
      Nested Fits start depth m'

theorem Nested.reaches {Fits : Machine → Prop} {start m : Machine} {depth : Nat}
    (nested : Nested Fits start depth m) :
  Reaches Fits start m
  := by
  induction nested with
  | refl => exact .refl
  | stay _ fits _ stepped ih | enter _ fits _ stepped ih | leave _ fits _ stepped ih =>
    exact .step ih fits stepped

section

variable {m : Machine} {i : Instruction}

theorem turn_eq_leave (fetched : fetch m.code m.registers.pc = .ok i) :
  m.turn = .leave ↔ i.op = .ret
  := by
  unfold turn
  rw [fetched]
  dsimp only
  split
  · next returns => simp [returns]
  · next noReturn =>
      split
      all_goals simp [noReturn]

theorem exists_of_turn_eq_leave (leave : m.turn = .leave) :
  ∃ i, fetch m.code m.registers.pc = .ok i ∧ i.op = .ret
  := by
  cases fetched : fetch m.code m.registers.pc with
  | error e =>
    unfold turn at leave
    rw [fetched] at leave
    cases leave
  | ok i => exact ⟨i, rfl, (turn_eq_leave fetched).1 leave⟩

theorem turn_eq_enter (fetched : fetch m.code m.registers.pc = .ok i) :
  m.turn = .enter ↔ i.op = .invoke ∧ ∃ f, m.callee? = some f ∧ f.isNative = false
  := by
  have coded : m.callee?.any (!·.isNative) = true
      ↔ ∃ f, m.callee? = some f ∧ f.isNative = false := by
    cases m.callee? with
    | none => simp
    | some f => simp
  unfold turn
  rw [fetched, ← coded]
  dsimp only
  split
  · next returns => simp [returns]
  · split
    · next enters => simpa using enters
    · next stays => simpa using stays

theorem callee?_eq {v : Value} (top : m.stack.cells[m.stack.sp - 1]? = some (.value v)) :
  m.callee? = m.exe.functions[v.bits.toNat]?
  := by
  unfold callee?
  rw [top]

end

/-! ### Frames above a frame -/

/-- The frame of a function at a place is so many calls below another one. -/
inductive CallsAbove (exe : Executable) (s : Stack) (index low : Nat) : Nat → Option Nat → Nat → Prop
  | same : CallsAbove exe s index low 0 (some index) low
  | call {depth inner base : Nat} {f : Function} {info : CallInfo} {current : Option Nat} :
      exe.functions[inner]? = some f → s.shape (base + f.params.length) = some (some info) →
      info.caller = callerOf current → info.base + exe.frameSize current ≤ base →
      CallsAbove exe s index low depth current info.base →
      CallsAbove exe s index low (depth + 1) (some inner) base

namespace CallsAbove

variable {exe : Executable} {s s' : Stack} {index low depth base : Nat} {current : Option Nat}

theorem le (above : CallsAbove exe s index low depth current base) :
  low ≤ base ∧ low + exe.frameSize (some index) ≤ base + exe.frameSize current
  := by
  induction above with
  | same => omega
  | call _ _ _ room _ ih => omega

theorem of_zero (above : CallsAbove exe s index low 0 current base) :
  current = some index ∧ base = low
  := by
  cases above
  exact ⟨rfl, rfl⟩

theorem of_shape (above : CallsAbove exe s index low depth current base)
    (same : ∀ k, k < base + exe.frameSize current → s'.shape k = s.shape k) :
  CallsAbove exe s' index low depth current base
  := by
  induction above with
  | same => exact .same
  | @call depth inner base f info current found record caller room _ ih =>
    rw [Executable.frameSize_eq found] at same
    have size : f.frameSize = f.params.length + 1 + f.locals.length := rfl
    refine .call found ?_ caller room (ih fun k under => same k (by omega))
    rw [same _ (by omega), record]

end CallsAbove

/-- The machine is so many calls above the frame of a function at a place. The call record of the
frame is there, and the cells below it are those of another stack. -/
structure Inside (outer : Stack) (index low : Nat) (f : Function) (info : CallInfo) (depth : Nat)
    (m : Machine) : Prop where
  found : m.exe.functions[index]? = some f
  frames : CallsAbove m.exe m.stack index low depth m.registers.current m.registers.base
  record : m.stack.shape (low + f.params.length) = some (some info)
  below : ∀ k, k < low → m.stack.cells[k]? = outer.cells[k]?

section

variable {p : Program} {entry : Nat} {m m' : Machine} {point : Point} {vs : List Value}
  {i : Instruction} {outer : Stack} {index low depth : Nat} {f : Function} {info : CallInfo}
variable {g : Function} {inner : Nat}

theorem Inside.record_lt (inside : m.Inside outer index low f info depth) :
  low + f.params.length < low + m.exe.frameSize (some index)
  := by
  rw [Executable.frameSize_eq inside.found]
  unfold Function.frameSize Frame.recordSize
  omega

/-! ### What an instruction does to the frames -/

/-- Whatever does not enter or leave a frame stays in its frame. -/
theorem Framed.stays_of_execute (framed : m.Framed p entry) (here : m.At p point vs i)
    (compiled : CompiledFrom p m.exe) (inRange : p.SlotsInRange)
    (fits : i.op = .invoke → ∀ v f, m.stack.cells[m.stack.sp - 1]? = some (.value v) →
      m.exe.functions[v.bits.toNat]? = some f → f.params.length = point.args ∧ f.isNative)
    (noReturn : i.op ≠ .ret) (run : Machine.execute i (m.advanced i) = .ok none m') :
  m.Stays m'
  := by
  have proper := compiled.proper inRange here.listed
  have plain (plainOp : i.op.isPlain) : m.Stays m' :=
    (framed.plain here (here.reads_eq proper plainOp) plainOp run).1
  cases op : i.op with
  | pushStack kind => exact (framed.pushStack here compiled inRange op run).1
  | popStack kind => exact (framed.popStack here compiled inRange op run).1
  | jump => exact (framed.jump here proper op run).1
  | jumpIfTrue => exact (framed.jumpIf here proper true op run).1
  | jumpIfFalse => exact (framed.jumpIf here proper false op run).1
  | invoke =>
    obtain ⟨us, args, v, f, rfl, count, deep, -, top, found, called⟩ :=
      here.execute_invoke_eq_ok op run
    obtain ⟨params, native⟩ := fits op v f top found
    rcases called with ⟨-, m₁, ran, rfl⟩ | ⟨code, -⟩
    · exact (framed.callNative here op found count params deep ran).1
    · rw [native] at code
      cases code
  | ret => exact absurd op noReturn
  | _ => exact plain (by rw [op]; rfl)

/-- A frame has been entered from the code that ran. -/
structure Entered (m : Machine) (pc inner : Nat) (g : Function) (m' : Machine) : Prop where
  exe : m'.exe = m.exe
  found : m.exe.functions[inner]? = some g
  current : m'.registers.current = some inner
  base : m'.registers.base + (g.params.length + 1) = m.stack.sp
  above : m.operandBase ≤ m'.registers.base
  record : m'.stack.shape (m'.registers.base + g.params.length)
    = some (some ⟨callerOf m.registers.current, pc, m.registers.base⟩)
  below : ∀ k, k < m'.registers.base → m'.stack.cells[k]? = m.stack.cells[k]?

theorem At.entered (here : m.At p point vs i) (call : i.op = .invoke) {v : Value}
    (top : m.stack.cells[m.stack.sp - 1]? = some (.value v))
    (found : m.exe.functions[v.bits.toNat]? = some g) (code : g.isNative = false)
    (fits : g.params.length = point.args) (run : execute i (m.advanced i) = .ok none m') :
  Entered m i.pc v.bits.toNat g m'
  := by
  obtain ⟨us, args, w, g', rfl, count, deep, -, top', found', called⟩ :=
    here.execute_invoke_eq_ok call run
  rw [top] at top'
  cases top'
  cases found.symm.trans found'
  obtain ⟨-, ran⟩ := called.resolve_left (by simp [code])
  let start := ((m.advanced i).atPc i.pc).lowered 1
  have held : start.stack.Holds m.operandBase (us ++ args) := here.holds.lowered
  have sp := held.sp_eq
  have size := held.fits
  have sp' := here.holds.sp_eq
  simp only [List.length_append, List.length_singleton] at sp sp'
  obtain ⟨⟨locals, length, extended⟩, same⟩ := enterFunction_eq_ok (m := start) (by omega) ran
  have base : m'.registers.base = m.operandBase + us.length := by
    rw [same]
    change start.stack.sp - g.params.length = _
    omega
  refine ⟨by rw [same]; rfl, found, by rw [same], ?_, ?_, ?_, ?_⟩
  · omega
  · omega
  · rw [base, show m.operandBase + us.length + g.params.length = start.stack.sp + 0 by omega]
    exact Stack.shape_of_call (extended.cell 0 _ rfl)
  · intro k under
    exact extended.below k (by omega) (by omega)

/-! ### Steps -/

theorem Inside.stays (inside : m.Inside outer index low f info depth) (stays : m.Stays m') :
  m'.Inside outer index low f info depth
  := by
  have room := inside.frames.le
  have slot := inside.record_lt
  refine ⟨by rw [stays.exe, inside.found], ?_, ?_, ?_⟩
  · rw [stays.exe, stays.current, stays.base]
    exact inside.frames.of_shape stays.shape
  · rw [stays.shape _ (Nat.lt_of_lt_of_le slot room.2), inside.record]
  · intro k under
    rw [stays.below k (by omega), inside.below k under]

theorem Inside.entered (inside : m.Inside outer index low f info depth) {pc : Nat}
    (entered : Entered m pc inner g m') :
  m'.Inside outer index low f info (depth + 1)
  := by
  have room := inside.frames.le
  have slot := inside.record_lt
  have above : m.registers.base + m.exe.frameSize m.registers.current ≤ m'.registers.base :=
    entered.above
  have shape : ∀ k, k < m.registers.base + m.exe.frameSize m.registers.current →
      m'.stack.shape k = m.stack.shape k := by
    intro k under
    exact Stack.shape_congr (entered.below k (by omega))
  refine ⟨by rw [entered.exe, inside.found], ?_, ?_, ?_⟩
  · rw [entered.exe, entered.current]
    exact .call entered.found entered.record rfl above (inside.frames.of_shape shape)
  · rw [shape _ (by omega), inside.record]
  · intro k under
    rw [entered.below k (by omega), inside.below k under]

/-- Leaving a frame other than the one that has been entered first. -/
theorem Inside.returned (inside : m.Inside outer index low f info (depth + 1)) {info' : CallInfo}
    (running : m.registers.current = some inner) (found : m.exe.functions[inner]? = some g)
    (record : m.stack.shape (m.registers.base + g.params.length) = some (some info')) (v : Value) :
  (m.returned info' v).Inside outer index low f info depth
  := by
  have slot := inside.record_lt
  have frames := inside.frames
  rw [running] at frames
  generalize placed : m.registers.base = base at frames record
  cases frames with
  | @call _ _ _ g' info'' current found' record' caller room frames =>
    obtain rfl : g' = g := Option.some.inj (found'.symm.trans found)
    obtain rfl : info'' = info' := by simpa using record'.symm.trans record
    have low' := frames.le
    have cells : ∀ k, k < base → (m.returned info'' v).stack.cells[k]? = m.stack.cells[k]? := by
      intro k under
      exact Array.getElem?_setIfInBounds_ne (by omega)
    refine ⟨inside.found, ?_, ?_, ?_⟩
    · rw [returned_current caller]
      exact frames.of_shape fun k under => Stack.shape_congr (cells k (by omega))
    · rw [Stack.shape_congr (cells _ (by omega)), inside.record]
    · intro k under
      rw [cells k (by omega), inside.below k under]

/-- A step keeps to the frame that has been entered, unless it leaves that. -/
theorem Inside.step (inside : m.Inside outer index low f info depth) (framed : m.Framed p entry)
    (compiled : CompiledFrom p m.exe) (inRange : p.SlotsInRange) (fits : m.CallFits p)
    (stepped : Machine.step m = .ok .running m') :
  (m.turn = .stay → m'.Inside outer index low f info depth)
    ∧ (m.turn = .enter → m'.Inside outer index low f info (depth + 1))
    ∧ ∀ less, depth = less + 1 → m.turn = .leave → m'.Inside outer index low f info less
  := by
  obtain ⟨host, i, fetched, ran⟩ := step_eq_running stepped
  obtain ⟨point, vs, here, pc⟩ := framed.at_fetched compiled fetched
  let m₁ : Machine := { m with host }
  have framed₁ : m₁.Framed p entry := framed.hosted host
  have here₁ : m₁.At p point vs i := here.hosted host
  have inside₁ : m₁.Inside outer index low f info depth :=
    ⟨inside.found, inside.frames, inside.record, inside.below⟩
  refine ⟨?_, ?_, ?_⟩
  · intro stay
    have noReturn : i.op ≠ .ret := by
      intro returns
      have leave := (turn_eq_leave fetched).2 returns
      rw [stay] at leave
      cases leave
    apply inside₁.stays
    apply framed₁.stays_of_execute here₁ compiled inRange _ noReturn ran
    intro call v g top found
    refine ⟨fits point here.listed pc (here.op ▸ call) v g top found, ?_⟩
    by_contra coded
    have enter := (turn_eq_enter fetched).2
      ⟨call, g, (callee?_eq top).trans found, by simpa using coded⟩
    rw [stay] at enter
    cases enter
  · intro enter
    obtain ⟨call, g, called, coded⟩ := (turn_eq_enter fetched).1 enter
    obtain ⟨-, -, v, -, -, -, top⟩ := here.call_operands call
    rw [callee?_eq top] at called
    have params := fits point here.listed pc (here.op ▸ call) v g top called
    exact inside₁.entered (here₁.entered call top called coded params ran)
  · rintro less rfl leave
    have returns := (turn_eq_leave fetched).1 leave
    obtain ⟨inner, g, info', running, found, frame, -⟩ := here.exists_frame framed compiled returns
    obtain ⟨v, -, ran'⟩ := here₁.execute_ret returns running found frame
    rw [ran'] at ran
    injection ran with _ same
    subst same
    let left := (m₁.advanced i).atPc i.pc
    have inside₂ : left.Inside outer index low f info (less + 1) :=
      ⟨inside.found, inside.frames, inside.record, inside.below⟩
    exact inside₂.returned running found frame.record v

/-- A run that has not left the frame keeps it and the cells below it. -/
theorem Inside.of_nested {start : Machine} (inside : start.Inside outer index low f info 0)
    (framed : start.Framed p entry) (compiled : CompiledFrom p start.exe)
    (inRange : p.SlotsInRange) (nested : Nested (CallFits p) start depth m) :
  m.Inside outer index low f info depth
  := by
  have between {depth : Nat} {m : Machine} (nested : Nested (CallFits p) start depth m) :
      m.Framed p entry ∧ CompiledFrom p m.exe := by
    have reaches := nested.reaches
    exact ⟨.of_reaches compiled inRange framed reaches, reaches.sameProgram.exe ▸ compiled⟩
  induction nested with
  | refl => exact inside
  | stay nested fits turn stepped ih =>
    obtain ⟨framed', compiled'⟩ := between nested
    exact (ih.step framed' compiled' inRange fits stepped).1 turn
  | enter nested fits turn stepped ih =>
    obtain ⟨framed', compiled'⟩ := between nested
    exact (ih.step framed' compiled' inRange fits stepped).2.1 turn
  | leave nested fits turn stepped ih =>
    obtain ⟨framed', compiled'⟩ := between nested
    exact (ih.step framed' compiled' inRange fits stepped).2.2 _ rfl turn

/-! ### Coming back -/

/-- The machine has come back from a call with so many arguments: it is behind the call, with the
result in place of the arguments and the index of the function, and all else as it was. -/
structure CameBack (m : Machine) (params : Nat) (result : Value) (m' : Machine) : Prop where
  current : m'.registers.current = m.registers.current
  base : m'.registers.base = m.registers.base
  code : m'.code = m.code
  pc : m'.registers.pc = m.registers.pc + 1
  enough : params < m.stack.sp
  sp : m'.stack.sp = m.stack.sp - params
  result : m'.stack.cells[m.stack.sp - params - 1]? = some (.value result)
  below : ∀ k, k < m.stack.sp - params - 1 → m'.stack.cells[k]? = m.stack.cells[k]?

/-- The value is what the procedure bound to a native function has made of the arguments below the
index of the function. -/
def NativeReturns (m : Machine) (index : Value) (params : Nat) (result : Value) (m' : Machine) :
    Prop :=
  ∃ native args m₁, (m.natives[index.bits.toNat]?).join = some native ∧ args.length = params
    ∧ m.stack.Holds (m.stack.sp - params - 1) (args ++ [index])
    ∧ collectIfDue m = .ok () m₁ ∧ native.run args m₁.host = .ok result m'.host

theorem callerOf_ne_host (current : Option Nat) :
  callerOf current ≠ .host
  := by
  cases current with
  | none | some index => exact Caller.noConfusion

/-- A step that ends with an instruction that goes on. -/
theorem step_of_execute {m₁ : Machine} (collected : collectIfDue m = .ok () m₁)
    (fetched : fetch m₁.code m₁.registers.pc = .ok i)
    (ran : execute i (m₁.advanced i) = .ok none m') :
  step m = .ok .running m'
  := by
  have forward := lt_nextPc i
  have within := nextPc_le_size fetched
  rw [fetch_pc fetched] at forward
  rw [step_eq, collected]
  dsimp only
  rw [if_neg (by omega), fetched]
  dsimp only
  rw [ran]

theorem code_eq (exe : m'.exe = m.exe) (current : m'.registers.current = m.registers.current) :
  m'.code = m.code
  := by
  unfold code
  rw [exe, current]

/-- A native function comes back at once. -/
theorem At.cameBack_native (here : m.At p point vs i) (linked : m.Linked) (call : i.op = .invoke)
    (pc : i.pc = m.registers.pc) {v : Value}
    (top : m.stack.cells[m.stack.sp - 1]? = some (.value v))
    (found : m.exe.functions[v.bits.toNat]? = some g) (native : g.isNative)
    (fits : g.params.length = point.args) (run : execute i (m.advanced i) = .ok none m') :
  ∃ native args result, (m.natives[v.bits.toNat]?).join = some native
    ∧ args.length = g.params.length
    ∧ m.stack.Holds (m.stack.sp - g.params.length - 1) (args ++ [v])
    ∧ native.run args m.host = .ok result m'.host ∧ m.CameBack g.params.length result m'
  := by
  obtain ⟨us, args, w, g', rfl, count, deep, -, top', found', called⟩ :=
    here.execute_invoke_eq_ok call run
  rw [top] at top'
  cases top'
  cases found.symm.trans found'
  obtain ⟨-, m₂, run₂, rfl⟩ := called.resolve_right (by simp [native])
  let start := ((m.advanced i).atPc i.pc).lowered 1
  have whole := here.holds
  have held : start.stack.Holds m.operandBase (us ++ args) := whole.lowered
  have sp := here.holds.sp_eq
  simp only [List.length_append, List.length_singleton] at sp
  have low : m.stack.sp - g.params.length - 1 = m.operandBase + us.length := by omega
  obtain ⟨procedure, r, bound, ran, rewritten, same⟩ :=
    callNative_eq_ok (m := start) linked found held.upper (by omega) run₂
  have top₂ := rewritten.holds.sp_eq
  rw [List.length_singleton] at top₂
  have current : m₂.registers.current = m.registers.current := by
    rw [same]
    rfl
  refine ⟨procedure, args, r, bound, by omega, ?_, ran, current, ?_, ?_, ?_, by omega, ?_, ?_, ?_⟩
  · rw [low]
    rw [List.append_assoc] at whole
    exact whole.upper
  · rw [same]
    rfl
  · exact code_eq (by rw [same]; rfl) current
  · rw [← pc, same]
    rfl
  · change m₂.stack.sp = _
    omega
  · rw [low]
    exact rewritten.holds.cell 0 r rfl
  · intro k under
    exact rewritten.below k (by omega)

/-- The machine in the frame that a call has entered. -/
theorem Entered.inside {pc : Nat} (entered : Entered m pc inner g m') :
  m'.Inside m.stack inner m'.registers.base g ⟨callerOf m.registers.current, pc, m.registers.base⟩ 0
  := by
  refine ⟨by rw [entered.exe, entered.found], ?_, entered.record, entered.below⟩
  rw [entered.current]
  exact .same

/-- The return of the frame that a call has entered succeeds and comes back. -/
theorem Inside.cameBack (outer : Machine) {m₁ : Machine}
    (inside : m.Inside outer.stack index low f
      ⟨callerOf outer.registers.current, outer.registers.pc, outer.registers.base⟩ 0)
    (framed : m.Framed p entry) (compiled : CompiledFrom p m.exe) (exe : m.exe = outer.exe)
    (place : low + (f.params.length + 1) = outer.stack.sp) (leave : m.turn = .leave)
    (collected : collectIfDue m = .ok () m₁) :
  ∃ result m', m.stack.cells[m.stack.sp - 1]? = some (.value result)
    ∧ Machine.step m = .ok .running m' ∧ outer.CameBack f.params.length result m'
  := by
  obtain ⟨host, rfl⟩ := eq_of_collectIfDue collected
  obtain ⟨i, fetched, returns⟩ := exists_of_turn_eq_leave leave
  obtain ⟨point, vs, here, -⟩ := framed.at_fetched compiled fetched
  obtain ⟨us, v, rfl, -⟩ := here.exists_top (by rw [returns]; rfl)
  have here₁ := here.hosted host
  have sp := here.holds.sp_eq
  have size := here.holds.fits
  rw [List.length_append, List.length_singleton] at sp
  have top : m.stack.cells[m.stack.sp - 1]? = some (.value v) := by
    rw [sp]
    exact here.holds.cell us.length v (by simp)
  -- The frame is the one that was entered, with the record that the call has made.
  obtain ⟨running, base⟩ := inside.frames.of_zero
  have backed := framed.backed
  rw [running] at backed
  obtain ⟨g, info, found, frame⟩ := backed.frame
  obtain rfl : g = f := Option.some.inj (found.symm.trans inside.found)
  obtain rfl : info
      = ⟨callerOf outer.registers.current, outer.registers.pc, outer.registers.base⟩ := by
    have record := frame.record
    rw [base, inside.record] at record
    exact (Option.some.inj (Option.some.inj record)).symm
  have ran := here₁.execute_ret_eq returns running found frame
  rw [if_neg (callerOf_ne_host _)] at ran
  refine ⟨v, _, top, step_of_execute collected fetched ran, ?_⟩
  let left := ({ m with host }.advanced i).atPc i.pc
  let info : CallInfo :=
    ⟨callerOf outer.registers.current, outer.registers.pc, outer.registers.base⟩
  have current : (left.returned info v).registers.current = outer.registers.current :=
    returned_current rfl v left
  have low' : outer.stack.sp - g.params.length - 1 = m.registers.base := by omega
  refine ⟨current, rfl, code_eq exe current, rfl, by omega, ?_, ?_, ?_⟩
  · change m.registers.base + 1 = _
    omega
  · have inCells : m.registers.base < m.stack.cells.size := by
      have room := m.base_le_operandBase
      omega
    rw [low']
    exact Array.getElem?_setIfInBounds_self_of_lt inCells
  · intro k under
    have other : m.registers.base ≠ k := by omega
    rw [← inside.below k (by omega)]
    exact Array.getElem?_setIfInBounds_ne other

end

/-- A call comes back to its caller. A native function has come back after the call, with what its
procedure has returned. Any other function has then been entered, and however the run goes on, the
return that leaves its frame comes back with the value that it finds on top of the stack. -/
theorem cameBack_of_nested {p : Program} {exe : Executable} {m₀ start m m₁ : Machine} {entry : Nat}
    {i : Instruction} {v : Value} {f : Function} (compiled : compile p = .ok exe)
    (inRange : p.SlotsInRange) (session : Session exe .any m₀) (enters : m₀.Enters entry start)
    (reaches : Reaches (CallFits p) start m) (fetched : fetch m.code m.registers.pc = .ok i)
    (call : i.op = .invoke) (top : m.stack.cells[m.stack.sp - 1]? = some (.value v))
    (found : m.exe.functions[v.bits.toNat]? = some f) (fits : m.CallFits p)
    (stepped : step m = .ok .running m₁) :
  (f.isNative = true → ∃ result, m.NativeReturns v f.params.length result m₁
      ∧ m.CameBack f.params.length result m₁)
    ∧ (f.isNative = false → m₁.registers.current = some v.bits.toNat
      ∧ ∀ m₂ m₃, Nested (CallFits p) m₁ 0 m₂ → m₂.turn = .leave → collectIfDue m₂ = .ok () m₃ →
        ∃ result m₄, m₂.stack.cells[m₂.stack.sp - 1]? = some (.value result)
          ∧ step m₂ = .ok .running m₄ ∧ m.CameBack f.params.length result m₄)
  := by
  have compiled₀ : CompiledFrom p m₀.exe := session.exe_eq ▸ compile_eq_ok compiled
  have compiled₁ : CompiledFrom p start.exe := enters.sameProgram.exe ▸ compiled₀
  have framed : m.Framed p entry :=
    .of_reaches compiled₁ inRange (enters.framed compiled₀ session.linked) reaches
  have compiled₂ : CompiledFrom p m.exe := reaches.sameProgram.exe ▸ compiled₁
  obtain ⟨mc, j, collected, fetched', ran⟩ := step_eq_ok_running stepped
  obtain ⟨host, rfl⟩ := eq_of_collectIfDue collected
  obtain rfl : j = i := Except.ok.inj (fetched'.symm.trans fetched)
  obtain ⟨point, vs, here, pc⟩ := framed.at_fetched compiled₂ fetched
  have here' := here.hosted host
  have params := fits point here.listed pc (here.op ▸ call) v f top found
  have place : j.pc = m.registers.pc := here.pc.trans pc
  refine ⟨?_, ?_⟩
  · intro native
    obtain ⟨procedure, args, result, bound, count, held, run, back⟩ :=
      here'.cameBack_native framed.linked call place top found native params ran
    exact ⟨result, ⟨procedure, args, _, bound, count, held, collected, run⟩, back.current,
      back.base, back.code, back.pc, back.enough, back.sp, back.result, back.below⟩
  · intro coded
    have entered := here'.entered call top found coded params ran
    have inside := entered.inside
    have framed₁ := framed.step compiled₂ inRange fits stepped
    have compiled₃ : CompiledFrom p m₁.exe := entered.exe ▸ compiled₂
    refine ⟨entered.current, ?_⟩
    intro m₂ m₃ nested leave collected₂
    have inside₂ := inside.of_nested framed₁ compiled₃ inRange nested
    have same := nested.reaches.sameProgram.exe
    have framed₂ : m₂.Framed p entry := .of_reaches compiled₃ inRange framed₁ nested.reaches
    rw [place] at inside₂
    exact inside₂.cameBack m framed₂ (same ▸ compiled₃) (same.trans entered.exe) entered.base leave
      collected₂

/-! ### An instance -/

/-- A program that calls a function which calls another one. -/
def nestedCall : Program where
  functions := [
    { name := "identity", params := [⟨"x", .int⟩], returnType := .int
      body := some [.ret {} (some (.readLocal 0 .int))] },
    { name := "outer", params := [⟨"x", .int⟩], returnType := .int
      body := some [.ret {} (some (.callOf (.functionRef 0 .int) [.readLocal 0 .int] .int))] }]
  statements := [.expression {} (.callOf (.functionRef 1 .int) [.ofInt 7] .int)]

def nestedExecutable : Executable where
  functions := #[
    { name := "identity", package := "", class_ := none, returnType := .int
      params := [⟨"x", .int⟩], locals := []
      code := some ⟨#[8, 0, 0, 79], #[⟨0, 0, 4⟩]⟩ },
    { name := "outer", package := "", class_ := none, returnType := .int
      params := [⟨"x", .int⟩], locals := []
      code := some ⟨#[8, 0, 0, 76, 0, 0, 78, 79], #[⟨0, 0, 8⟩]⟩ }]
  topLevel := ⟨#[0, 7, 76, 0, 1, 78, 71], #[⟨0, 0, 7⟩]⟩

def nestedMachine : Machine :=
  ofStack nestedExecutable { initialStackSize := 8, maxStackSize := 8 } 0 (Stack.new 8 8)

/-- After so many instructions. -/
def nestedAfter (count : Nat) : Machine := (resume count nestedMachine.restart).2

/-- All calls have one argument, and all functions have one parameter. -/
theorem callFits_nestedCall {m : Machine} (exe : m.exe = nestedExecutable) :
  m.CallFits nestedCall
  := by
  have args : ∀ current, ∀ point ∈ nestedCall.points current, point.op = .invoke →
      point.args = 1 := by
    intro current
    cases current with
    | none => decide
    | some index =>
      rcases index with _ | _ | index
      · decide
      · decide
      · intro point listed
        cases listed
  have params : ∀ f ∈ nestedExecutable.functions, f.params.length = 1 := by decide
  intro point listed pc call v f cell found
  rw [exe] at found
  rw [args _ point listed call, params f (Array.mem_of_getElem? found)]

theorem reaches_nestedAfter :
  Reaches (CallFits nestedCall) nestedMachine.restart (nestedAfter 2)
  := by
  have first : Reaches (CallFits nestedCall) nestedMachine.restart (nestedAfter 1) :=
    .step .refl (callFits_nestedCall rfl) (by cbv)
  exact .step first (callFits_nestedCall first.sameProgram.exe) (by cbv)

/-- The outer function from its entry to its return, with the call of the inner one. -/
theorem nested_nestedAfter :
  Nested (CallFits nestedCall) (nestedAfter 3) 0 (nestedAfter 8)
  := by
  have fits {depth : Nat} {m : Machine}
      (nested : Nested (CallFits nestedCall) (nestedAfter 3) depth m) : m.CallFits nestedCall :=
    callFits_nestedCall (nested.reaches.sameProgram.exe.trans (by cbv))
  have first : Nested (CallFits nestedCall) (nestedAfter 3) 0 (nestedAfter 4) :=
    .stay .refl (fits .refl) (by cbv) (by cbv)
  have second : Nested (CallFits nestedCall) (nestedAfter 3) 0 (nestedAfter 5) :=
    .stay first (fits first) (by cbv) (by cbv)
  have third : Nested (CallFits nestedCall) (nestedAfter 3) 1 (nestedAfter 6) :=
    .enter second (fits second) (by cbv) (by cbv)
  have fourth : Nested (CallFits nestedCall) (nestedAfter 3) 1 (nestedAfter 7) :=
    .stay third (fits third) (by cbv) (by cbv)
  exact .leave fourth (fits fourth) (by cbv) (by cbv)

/-- The call of the outer function comes back after that of the inner one has. -/
theorem cameBack_nestedAfter :
  ∃ result m, (nestedAfter 8).stack.cells[(nestedAfter 8).stack.sp - 1]? = some (.value result)
    ∧ step (nestedAfter 8) = .ok .running m ∧ (nestedAfter 2).CameBack 1 result m
  := by
  have compiled : compile nestedCall = .ok nestedExecutable := by cbv
  have inRange : nestedCall.SlotsInRange := by
    intro f listed body bodied slot used
    rcases List.mem_pair.1 listed with rfl | rfl
    all_goals
      cases bodied
      obtain rfl := List.mem_singleton.1 used
      decide
  have made : new? nestedExecutable { initialStackSize := 8, maxStackSize := 8 } 0
      = some nestedMachine := rfl
  have fits := callFits_nestedCall reaches_nestedAfter.sameProgram.exe
  have stepped : step (nestedAfter 2) = .ok .running (nestedAfter 3) := by cbv
  have back := cameBack_of_nested compiled inRange (.start made) .run reaches_nestedAfter
    (i := ⟨5, .invoke, none⟩) (v := .ofInt 1) (f := nestedExecutable.functions[1]) (by cbv) rfl
    (by cbv) (by cbv) fits stepped
  exact (back.2 rfl).2 _ (nestedAfter 8) nested_nestedAfter (by cbv) (by cbv)

end Machine

end Bytecode
