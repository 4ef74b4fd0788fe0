import Mathlib
import Bytecode.Proofs.Semantics.Stepping

/-!
# Calls and returns of a machine that mirrors a store

A call adds a frame whose parameters are the arguments and whose locals are zero; a return drops
it and leaves the value on top of what the caller has below.
-/

namespace Bytecode

open Machine

/-- The index of a function as a number. -/
theorem Value.toNat_bits_ofNat {index : Nat} (small : index < 65536) :
  (Value.ofInt (.ofNat index)).bits.toNat = index
  := by
  unfold Value.ofInt Value.bits
  rw [Int64.toUInt64_ofNat', UInt64.toNat_ofNat']
  omega

/-- Variables of whole numbers start as zero. -/
theorem Heap.defaultValue_of_scalar {ty : Ty} (scalar : ty.isScalar) (h : Heap) :
  h.defaultValue ty = (.ofInt 0, h)
  := by
  cases ty with
  | void | boolean | int => rfl
  | _ => cases scalar

/-- Locals of whole numbers are pushed as zeros, if there is room. -/
theorem Machine.pushLocals_of_scalar {decls : List VariableDecl} {cs : List Cell} {m : Machine}
    (scalar : decls.all (·.ty.isScalar)) (stack : m.stack.InUse cs)
    (room : m.stack.sp + decls.length ≤ m.stack.cells.size) :
  ∃ st, pushLocals decls m = .ok () { m with stack := st }
    ∧ st.InUse (cs ++ (decls.map fun _ => 0).map word) ∧ st.limit = m.stack.limit
  := by
  induction decls generalizing cs m with
  | nil => exact ⟨m.stack, rfl, by simpa using stack, rfl⟩
  | cons decl rest ih =>
    rw [List.all_cons, Bool.and_eq_true] at scalar
    rw [List.length_cons] at room
    have made : modifyHeap (Heap.defaultValue decl.ty) m = .ok .zero m := by
      rw [modifyHeap_eq, Heap.defaultValue_of_scalar scalar.1]
      rfl
    let st : Stack := { m.stack with
      cells := m.stack.cells.setIfInBounds m.stack.sp (.value .zero), sp := m.stack.sp + 1 }
    have pushed : Stack.push .zero m.stack = .ok () st := Stack.pushCell_eq_of_lt (by omega)
    have ran : push .zero m = .ok () { m with stack := st } := onStack_of_ok pushed
    have inUse : st.InUse (cs ++ [word 0]) :=
      stack.extended (Stack.pushCell_eq_ok pushed).extended
    have left : st.sp + rest.length ≤ st.cells.size := by
      simp only [st, Array.size_setIfInBounds]
      omega
    obtain ⟨st', rest_, inUse', limit⟩ := ih (m := { m with stack := st }) scalar.2 inUse left
    refine ⟨st', ?_, by simpa using inUse', limit⟩
    unfold pushLocals
    rw [bind_of_ok made, bind_of_ok ran, rest_]

/-- A function of whole numbers is entered, or the stack cannot have the cells of its frame. -/
theorem Machine.enterFunction_of_scalar (index : Nat) {f : Function} (caller : Caller)
    {cs : List Cell} {args : List Int64} {m : Machine} (scalar : f.locals.all (·.ty.isScalar))
    (stack : m.stack.InUse (cs ++ args.map word)) (params : f.params.length = args.length) :
  (∃ st : Stack, enterFunction index f caller m = .ok () { m with
        stack := st
        registers := { m.registers with current := some index, pc := 0, base := cs.length } }
      ∧ st.InUse (cs ++ (args.map word ++ .call ⟨caller, m.registers.pc, m.registers.base⟩
        :: (f.locals.map fun _ => 0).map word))
      ∧ st.limit = m.stack.limit)
    ∨ ∃ trap, enterFunction index f caller m = .error trap m
      ∧ Stack.Refuses m.stack.limit (cs.length + f.frameSize) trap
  := by
  have sp := stack.sp_eq
  rw [List.length_append, List.length_map] at sp
  rw [enterFunction_eq (by omega)]
  cases made : Stack.reserve (Frame.recordSize + f.locals.length) m.stack with
  | error trap st =>
    obtain ⟨rfl, cause⟩ := Stack.reserve_eq_error made
    refine .inr ⟨trap, bind_of_error (onStack_of_error made) _, ?_⟩
    have refuses := Stack.refuses_of_cause cause
    have required : m.stack.sp + (Frame.recordSize + f.locals.length)
        = cs.length + f.frameSize := by
      unfold Function.frameSize
      omega
    rwa [required] at refuses
  | ok _ st =>
    have reserved := Stack.reserve_eq_ok made
    have room := reserved.room
    have record : Frame.recordSize = 1 := rfl
    let info : CallInfo := ⟨caller, m.registers.pc, m.registers.base⟩
    let st₁ : Stack := { st with
      cells := st.cells.setIfInBounds st.sp (.call info), sp := st.sp + 1 }
    have pushed : Stack.pushCall info st = .ok () st₁ := by
      apply Stack.pushCell_eq_of_lt
      rw [reserved.sp_eq]
      omega
    have inUse := (stack.extended reserved.extended).extended
      (Stack.pushCell_eq_ok pushed).extended
    have left : st₁.sp + f.locals.length ≤ st₁.cells.size := by
      simp only [st₁, Array.size_setIfInBounds, reserved.sp_eq]
      omega
    obtain ⟨st₂, ran, inUse', limit⟩ := pushLocals_of_scalar (m := { m with stack := st₁ })
      scalar inUse left
    left
    refine ⟨st₂, ?_, ?_, limit.trans reserved.limit_eq⟩
    · have base : m.stack.sp - f.params.length = cs.length := by omega
      rw [bind_of_ok (onStack_of_ok made), bind_of_ok (onStack_of_ok pushed), bind_of_ok ran, base]
      rfl
    · simpa using inUse'

namespace Setting

variable {s : Setting} {a : Activation} {point : Point} {us args : List Int64} {v : Int64}
  {store : Store} {m : Machine}

/-! ### Returns -/

/-- The machine is behind a call in the code of the caller, with the value on top of the cells
below the frame that is gone. -/
structure Resumes (s : Setting) (caller : Option Nat) (pc base : Nat) (below : List Cell)
    (v : Int64) (store : Store) (m : Machine) : Prop where
  exe : m.exe = s.exe
  host : m.host = s.host
  limit : m.stack.limit = s.limit
  current : m.registers.current = caller
  base : m.registers.base = base
  pc : m.registers.pc = pc + 1
  stack : m.stack.InUse (below ++ [word v])
  globals : m.globals = store.words
  globalCount : store.globals.length = s.program.globals.length

/-- The activation has returned a value. -/
def Returns (s : Setting) (a : Activation) (v : Int64) (store : Store) (m : Machine) : Prop :=
  match a with
  | .topLevel => False
  | .call _ caller pc base below => s.Resumes caller pc base below v store m

theorem Mirrors.returns (here : s.Mirrors a point.pc [v] store m)
    (listed : point ∈ s.program.points a.current) (ret : point.op = .ret) :
  s.Steps m (s.Returns a v store)
  := by
  cases a with
  | topLevel =>
    have frameless := s.compiled.frameless.of_mem_points listed
    rw [ret] at frameless
    cases frameless
  | call index caller pc base below =>
    obtain ⟨i, fetches⟩ := here.exists_fetches listed
    obtain ⟨block, coded⟩ := s.compiled.exists_code listed
    obtain ⟨g, found, -⟩ := Option.bind_eq_some_iff.1 coded
    have params : (s.program.frame (some index)).1 = g.params.length := by
      rw [s.compiled.frame_eq found]
    have enough : (s.program.frame (some index)).1 ≤ store.locals.length := by
      rw [here.localCount]
      exact Nat.le_add_right _ _
    have slotted := Activation.getElem?_record caller pc base below enough
    have record := here.stack.cell _ _
      ((List.getElem?_append_left (List.getElem?_eq_some_iff.1 slotted).1).trans slotted)
    have placed : m.registers.base = below.length := here.base
    rw [params, ← placed] at record
    have inside : m.registers.base < m.stack.cells.size := by
      have small := (Array.getElem?_eq_some_iff.1 record).1
      omega
    have stack := here.stack
    rw [← map_value_ofInt [v]] at stack
    have held : ((m.advanced i).atPc i.pc).stack.Holds _ ([] ++ [Value.ofInt v]) :=
      Stack.InUse.holds stack
    have known : m.exe.functions[index]? = some g := by rw [here.exe, found]
    have executed := (Machine.execute_ret (fetches.op.trans ret) (m.advanced i)).trans
      (returnValue_eq held here.current known
        (Stack.callInfo?_eq_some.2 (Stack.shape_of_call record)) inside)
    rw [if_neg (by cases caller <;> nofun)] at executed
    have dropped : { m.stack with sp := below.length }.InUse below := by
      apply Stack.InUse.truncated
      rw [Activation.cells, List.append_assoc] at stack
      exact stack
    let after := ((m.advanced i).atPc i.pc).returned ⟨callerOf caller, pc, base⟩ (.ofInt v)
    have pushed : Stack.push (.ofInt v) { m.stack with sp := below.length }
        = .ok () after.stack := by
      rw [← placed]
      exact Stack.pushCell_eq_of_lt inside
    exact .inr ⟨after, fetches.ok _ executed, here.exe, here.host, here.limit,
      returned_current rfl _ _, rfl, rfl,
      dropped.extended (Stack.pushCell_eq_ok pushed).extended, here.globals, here.globalCount⟩

/-- A caller goes on with its own variables and the value as an operand. -/
theorem Returns.mirrors {index pc : Nat} {locals : List Int64}
    (returns : s.Returns (.call index a.current pc a.base (a.cells s.program locals ++ us.map word))
      v store m)
    (count : locals.length = (s.program.frame a.current).1 + (s.program.frame a.current).2) :
  s.Mirrors a (pc + 1) (us ++ [v]) { store with locals } m
  := by
  obtain ⟨sameExe, host, limit, current, base, place, stack, globals, globalCount⟩ := returns
  refine ⟨sameExe, host, limit, current, base, place, ?_, globals, globalCount, count⟩
  simpa using stack

/-! ### Calls -/

/-- A call goes to the start of the function, with the arguments as parameters and locals that
are zero. -/
theorem Mirrors.calls {index : Nat} {f : FunctionDecl} {body : Block}
    (here : s.Mirrors a point.pc (us ++ args ++ [.ofNat index]) store m)
    (listed : point ∈ s.program.points a.current)
    (count : (us ++ args ++ [Int64.ofNat index]).length = point.depth)
    (call : point.op = .invoke) (small : index < 65536)
    (declared : s.program.functions[index]? = some f) (bodied : f.body = some body)
    (params : args.length = f.params.length)
    (room : a.base + s.program.width + s.program.width ≤ s.bound) :
  s.Steps m (s.Mirrors
    (.call index a.current point.pc a.base (a.cells s.program store.locals ++ us.map word)) 0 []
    { store with locals := args ++ f.locals.map fun _ => 0 })
  := by
  obtain ⟨i, fetches⟩ := here.exists_fetches listed
  obtain ⟨g, found, fromDecl⟩ := s.compiled.function_of_declared declared
  have known : m.exe.functions[index]? = some g := by rw [here.exe, found]
  have frame := s.compiled.frame_eq found
  have code : g.isNative = false := by
    obtain ⟨block, coded, -⟩ := fromDecl.code body bodied
    simp [Function.isNative, coded]
  have scalar : g.locals.all (·.ty.isScalar) := by
    rw [fromDecl.locals]
    exact (Program.isScalar_function s.scalar declared).2.1
  have stack := here.stack
  rw [List.map_append, List.map_append, ← List.append_assoc, ← List.append_assoc] at stack
  let start := ((m.advanced i).atPc i.pc).lowered 1
  have left : start.stack.InUse
      (a.cells s.program store.locals ++ us.map word ++ args.map word) := stack.lowered
  have held : ((m.advanced i).atPc i.pc).stack.Holds _ ([] ++ [Value.ofInt (.ofNat index)]) :=
    Stack.InUse.holds stack
  have invoked : invoke ((m.advanced i).atPc i.pc)
      = enterFunction index g (callerOf a.current) start := by
    have invoked := invoke_eq held (by rw [Value.toNat_bits_ofNat small]; exact known)
    rw [Value.toNat_bits_ofNat small, code] at invoked
    rw [invoked, ← here.current]
    rfl
  have executed := execute_invoke (fetches.op.trans call) (m.advanced i)
  have wide := Program.le_width listed
  have length := a.length_cells here.localCount
  obtain ⟨entry, first, -, -⟩ := s.program.lands_points_function declared bodied
  have wide' := Program.le_width first
  have size : s.program.frameSize (some index) = g.frameSize := by
    rw [Program.frameSize, Function.frameSize, frame]
  rcases enterFunction_of_scalar index (callerOf a.current) scalar left
      (by rw [fromDecl.params, params]) with ⟨st, entered, inUse, limit⟩ | ⟨trap, failed, refuses⟩
  · right
    refine ⟨_, fetches.ok _ (executed.trans (bind_of_ok (invoked.trans entered) _)), here.exe,
      here.host, limit.trans here.limit, rfl, rfl, rfl, ?_, here.globals, here.globalCount, ?_⟩
    · have pc : start.registers.pc = point.pc := fetches.pc
      have base : start.registers.base = a.base := here.base
      rw [pc, base, fromDecl.locals] at inUse
      rw [Activation.cells, frame, fromDecl.params, ← params, List.take_left, List.drop_left]
      simpa using inUse
    · rw [Activation.current, frame, fromDecl.params, fromDecl.locals, ← params]
      simp
  · left
    have stepped := fetches.error _ _ (executed.trans (bind_of_error (invoked.trans failed) _))
    have limit : start.stack.limit = s.limit := here.limit
    rw [limit] at refuses
    apply exhausts_of_refuses listed stepped here.exe here.current fetches.opPc refuses
    simp only [List.length_append, List.length_map, List.length_cons] at count ⊢
    omega

end Setting

end Bytecode
