import Mathlib
import Bytecode.Proofs.Typing.Operations
import Bytecode.Proofs.Typing.Scheme

/-!
# Types in frames

`CellTypes` assigns types to the cells of the frame that runs and of those of its callers, from the
bottom of the stack up: the operands that a caller has left below a frame are of the types with which
its code goes on. A machine is `Typed` when its objects and globals are of their types, its cells are
of the types of its frames, and its operands are as its code awaits them.

Every instruction of a typed machine leaves a typed machine, provided that a call is of a function
that takes the arguments. An instruction that fails leaves at least objects and globals typed.
-/

namespace Bytecode

open Machine
open List (Forall₂)

/-! ### Heaps get no smaller -/

theorem Heap.Derived.size_le {exe : Executable} {h h' : Heap} (derived : Derived exe h h') :
  h.slots.size ≤ h'.slots.size
  := by
  induction derived with
  | refl => exact Nat.le_refl _
  | @alloc h' o _ _ ih =>
    rw [slots_size_alloc]
    split
    · exact Nat.le_succ_of_le ih
    · exact ih
  | @setElement h' handle i v _ ih | @setField h' handle i v _ ih => simpa [Heap.update] using ih

/-- As long as native functions leave the heap alone, a heap whose slots have handles of their own
has come from such heaps only. -/
def StaysSmall (m m' : Machine) : Prop :=
  m.Harmless → m'.Harmless ∧ (m'.heap.Small → m.heap.Small)

instance : IsPreorder Machine StaysSmall where
  refl _ harmless := ⟨harmless, id⟩
  trans _ _ _ first second harmless :=
    ⟨(second (first harmless).1).1, fun small =>
      (first harmless).2 ((second (first harmless).1).2 small)⟩

theorem StaysSmall.law :
  Law StaysSmall
  := by
  apply Law.of_stackless
  · exact fun _ _ _ harmless => ⟨harmless, id⟩
  · intro α x off derives m harmless
    refine ⟨?_, fun small => Nat.le_trans (derives.heap m).size_le small⟩
    unfold Harmless
    rw [off.natives m]
    exact harmless
  · intro m harmless
    rw [collect_eq]
    split
    · exact ⟨harmless, (m.heap.small_reclaim m.roots).1⟩
    · exact ⟨harmless, (m.heap.small_reclaim m.roots).1⟩
  · intro m index native args bound harmless
    rw [stateOf_onHost]
    refine ⟨harmless, fun small => ?_⟩
    have same := (harmless index native bound).heap args m.host
    exact (congrArg Heap.Small same).mp small

/-! ### Cells -/

/-- The values in the lowest cells are of the given types. -/
def Stack.CellsTyped (exe : Executable) (types : HeapTyping) (tys : List Ty) (s : Stack) : Prop :=
  ∀ (k : Nat) ty v, tys[k]? = some ty → s.cells[k]? = some (.value v) → v.HasType exe types ty

namespace Stack.CellsTyped

variable {exe : Executable} {types types' : HeapTyping} {tys tys' : List Ty} {s s' : Stack}
  {vs : List Value}

theorem of_cells (typed : s.CellsTyped exe types tys)
    (same : ∀ k, k < tys.length → s'.cells[k]? = s.cells[k]?) :
  s'.CellsTyped exe types tys
  := by
  intro k ty v declared found
  rw [same k (List.getElem?_eq_some_iff.1 declared).1] at found
  exact typed k ty v declared found

theorem agrees {h : Heap} (typed : s.CellsTyped exe types tys)
    (live : ∀ k v, k < tys.length → s.cells[k]? = some (.value v) → v.Live h)
    (agrees : types.Agrees h types') :
  s.CellsTyped exe types' tys
  := by
  intro k ty v declared found
  have inside := (List.getElem?_eq_some_iff.1 declared).1
  exact (typed k ty v declared found).agrees (live k v inside found) agrees

theorem left (typed : s.CellsTyped exe types (tys ++ tys')) :
  s.CellsTyped exe types tys
  := by
  intro k ty v declared found
  have inside := (List.getElem?_eq_some_iff.1 declared).1
  exact typed k ty v (by rw [List.getElem?_append_left inside, declared]) found

/-- The cells above are values of other types. -/
theorem append (typed : s.CellsTyped exe types tys) (values : HaveTypes exe types tys' vs)
    (cells : ∀ k v, vs[k]? = some v → s.cells[tys.length + k]? = some (.value v)) :
  s.CellsTyped exe types (tys ++ tys')
  := by
  intro k ty v declared found
  by_cases inside : k < tys.length
  · rw [List.getElem?_append_left inside] at declared
    exact typed k ty v declared found
  · rw [List.getElem?_append_right (Nat.le_of_not_lt inside)] at declared
    have listed : k - tys.length < vs.length := by
      rw [← values.length_eq]
      exact (List.getElem?_eq_some_iff.1 declared).1
    have there := cells _ _ (List.getElem?_eq_getElem listed)
    rw [Nat.add_sub_cancel' (Nat.le_of_not_lt inside), found] at there
    cases there
    obtain ⟨ty', declared', typed'⟩ :=
      exists_of_forall₂_getElem? values (List.getElem?_eq_getElem listed)
    rw [declared] at declared'
    cases declared'
    exact typed'

/-- A cell that is no value is of any type. -/
theorem append_call {info : CallInfo} {ty : Ty} (typed : s.CellsTyped exe types tys)
    (record : s.cells[tys.length]? = some (.call info)) :
  s.CellsTyped exe types (tys ++ [ty])
  := by
  intro k ty' v declared found
  by_cases inside : k < tys.length
  · rw [List.getElem?_append_left inside] at declared
    exact typed k ty' v declared found
  · have last := (List.getElem?_eq_some_iff.1 declared).1
    rw [List.length_append, List.length_singleton] at last
    obtain rfl : k = tys.length := by omega
    rw [record] at found
    cases found

/-- The values on top of other cells. -/
theorem haveTypes (typed : s.CellsTyped exe types (tys ++ tys')) (held : s.Holds tys.length vs)
    (count : tys'.length = vs.length) :
  HaveTypes exe types tys' vs
  := by
  apply List.forall₂_iff_get.2
  refine ⟨count, ?_⟩
  intro k inside inside'
  apply typed (tys.length + k)
  · rw [List.getElem?_append_right (Nat.le_add_right _ _), Nat.add_sub_cancel_left]
    exact List.getElem?_eq_getElem inside
  · exact held.cell k _ (List.getElem?_eq_getElem inside')

theorem set {index : Nat} {v : Value} (typed : s.CellsTyped exe types tys)
    (value : ∀ ty, tys[index]? = some ty → v.HasType exe types ty) :
  ({ s with cells := s.cells.setIfInBounds index (.value v) } : Stack).CellsTyped exe types tys
  := by
  intro k ty w declared found
  change (s.cells.setIfInBounds index (.value v))[k]? = some (.value w) at found
  rw [Array.getElem?_setIfInBounds] at found
  split at found
  · next same =>
      subst same
      split at found
      all_goals cases found
      exact value ty declared
  · exact typed k ty w declared found

end Stack.CellsTyped

/-! ### Frames -/

/-- The types of the cells of a frame besides its operands. That of the call record does not
matter. -/
def Function.frameTys (f : Function) : List Ty :=
  f.paramTys ++ [.void] ++ f.locals.map (·.ty)

theorem Function.length_frameTys (f : Function) :
  f.frameTys.length = f.frameSize
  := by
  simp only [frameTys, paramTys, frameSize, Frame.recordSize, List.length_append, List.length_map,
    List.length_singleton]

/-- A parameter or a local has a cell of its type. -/
theorem Function.getElem?_frameTys {f : Function} {slot : Nat} {decl : VariableDecl}
    (declared : (f.params ++ f.locals)[slot]? = some decl) :
  f.frameTys[Frame.slotOffset f.params.length slot]? = some decl.ty
  := by
  unfold frameTys paramTys Frame.slotOffset
  split
  · next param =>
      rw [List.getElem?_append_left param] at declared
      rw [List.append_assoc, List.getElem?_append_left (by simpa using param), List.getElem?_map,
        declared]
      rfl
  · next rest =>
      rw [List.getElem?_append_right (by omega)] at declared
      rw [List.getElem?_append_right (by simp [Frame.recordSize]; omega), List.getElem?_map]
      have place : slot + Frame.recordSize - (f.params.map (·.ty) ++ [Ty.void]).length
          = slot - f.params.length := by
        simp [Frame.recordSize]
      rw [place, declared]
      rfl

/-- A frame with arguments and locals of their types is added above typed cells. -/
theorem Stack.CellsTyped.enter {exe : Executable} {types : HeapTyping} {f : Function}
    {info : CallInfo} {cellTys tys : List Ty} {us args locals : List Value} {s s' : Stack}
    (typed : s.CellsTyped exe types cellTys) (held : s.Holds cellTys.length (us ++ args))
    (below : HaveTypes exe types tys us) (passed : HaveTypes exe types f.paramTys args)
    (values : HaveTypes exe types (f.locals.map (·.ty)) locals)
    (extended : s.Extended (.call info :: locals.map .value) s') :
  s'.CellsTyped exe types (cellTys ++ tys ++ f.frameTys)
  := by
  have operands : HaveTypes exe types (tys ++ f.paramTys) (us ++ args) :=
    List.rel_append below passed
  have top : (cellTys ++ (tys ++ f.paramTys)).length = s.sp := by
    rw [List.length_append, operands.length_eq, held.sp_eq]
  have before : s'.CellsTyped exe types (cellTys ++ (tys ++ f.paramTys)) := by
    apply (typed.append operands held.cell).of_cells
    intro k under
    have fits := held.fits
    exact extended.below k (by omega) (by omega)
  have record : s'.cells[(cellTys ++ (tys ++ f.paramTys)).length]? = some (.call info) := by
    rw [top]
    exact extended.cell 0 _ rfl
  have recorded : s'.CellsTyped exe types (cellTys ++ (tys ++ f.paramTys) ++ [.void]) :=
    before.append_call record
  have whole := recorded.append values (by
    intro k v listed
    rw [List.length_append, List.length_singleton, top, Nat.add_assoc, Nat.add_comm 1]
    apply extended.cell (k + 1)
    rw [List.getElem?_cons_succ, List.getElem?_map, listed]
    rfl)
  simpa only [Function.frameTys, List.append_assoc] using whole

/-- The types of the cells of the frame that runs and of those below it, apart from its operands. A
caller has left its operands below the frame and goes on with the result on top of them. -/
inductive CellTypes (p : Program) (exe : Executable) (s : Stack) :
    Option Nat → Nat → List Ty → Prop
  | topLevel : CellTypes p exe s none 0 []
  | call {index base : Nat} {f : Function} {info : CallInfo} {caller : Option Nat}
      {below tys : List Ty} {ty : Ty} :
      exe.functions[index]? = some f → base = (below ++ tys).length →
      s.shape (base + f.params.length) = some (some info) → info.caller = callerOf caller →
      p.Awaits exe caller (info.pc + 1) (.plain (tys ++ [ty])) → exe.Fits f.returnType ty →
      CellTypes p exe s caller info.base below →
      CellTypes p exe s (some index) base (below ++ tys ++ f.frameTys)

namespace CellTypes

variable {p : Program} {exe : Executable} {s s' : Stack} {current : Option Nat} {base : Nat}
  {tys : List Ty}

theorem length_eq (cellTypes : CellTypes p exe s current base tys) :
  tys.length = base + exe.frameSize current
  := by
  cases cellTypes with
  | topLevel => rfl
  | @call index base f info caller below tys ty found height _ _ _ _ _ =>
    rw [List.length_append, f.length_frameTys, Executable.frameSize_eq found, height]

theorem of_shape (cellTypes : CellTypes p exe s current base tys)
    (same : ∀ k, k < tys.length → s'.shape k = s.shape k) :
  CellTypes p exe s' current base tys
  := by
  induction cellTypes with
  | topLevel => exact .topLevel
  | @call index base f info caller below tys ty found height record called awaits fits _ ih =>
    rw [List.length_append, f.length_frameTys, ← height] at same
    have inside : f.params.length < f.frameSize := by
      unfold Function.frameSize Frame.recordSize
      omega
    refine .call found height ?_ called awaits fits (ih ?_)
    · rw [same _ (by omega), record]
    · intro k under
      rw [List.length_append] at height
      exact same k (by omega)

/-- A variable of the frame has a cell of its type. -/
theorem slot (cellTypes : CellTypes p exe s current base tys) {site : Site}
    (frame : exe.HasSite current site) {slot : Nat} {ty : Ty}
    (declared : exe.slotTy? current slot = some ty) :
  tys[base + Frame.slotOffset site.params slot]? = some ty
  := by
  cases cellTypes with
  | topLevel => cases declared
  | @call index base f info caller below tys _ found height _ _ _ _ _ =>
    rw [Executable.slotTy?, Option.bind_some, found, Option.bind_some] at declared
    obtain ⟨decl, there, rfl⟩ := Option.map_eq_some_iff.1 declared
    rw [(frame index f rfl found).1, height, List.getElem?_append_right (Nat.le_add_right _ _),
      Nat.add_sub_cancel_left]
    exact f.getElem?_frameTys there

end CellTypes

/-! ### Typed machines -/

theorem Plan.Holds.length_eq {exe : Executable} {types : HeapTyping} {plan : Plan} {vs : List Value}
    (holds : plan.Holds exe types vs) :
  vs.length = plan.height
  := by
  cases plan with
  | plain tys => exact (List.Forall₂.length_eq holds).symm
  | dispatch tys slot =>
    obtain ⟨us, v, w, rfl, typed, -⟩ := holds
    have length := typed.length_eq
    simp only [Plan.height, List.length_append, List.length_cons, List.length_nil] at length ⊢
    omega

theorem Stack.Holds.unique {s : Stack} {low : Nat} {vs ws : List Value} (h : s.Holds low vs)
    (h' : s.Holds low ws) :
  vs = ws
  := by
  have length : vs.length = ws.length := by
    have sp := h.sp_eq
    have sp' := h'.sp_eq
    omega
  apply List.ext_getElem length
  intro k inside inside'
  have cell := h.cell k _ (List.getElem?_eq_getElem inside)
  rw [h'.cell k _ (List.getElem?_eq_getElem inside')] at cell
  exact (Cell.value.inj (Option.some.inj cell)).symm

namespace Machine

/-- The machine has values of the right types everywhere: in its heap and globals, in the cells of
its frames, and as operands. -/
structure Typed (p : Program) (types : HeapTyping) (m : Machine) : Prop where
  store : m.TypedBy types
  frames : ∃ tys, CellTypes p m.exe m.stack m.registers.current m.registers.base tys
    ∧ m.stack.CellsTyped m.exe types tys
  operands : ∃ plan vs, p.Awaits m.exe m.registers.current m.registers.pc plan
    ∧ m.stack.Holds m.operandBase vs ∧ plan.Holds m.exe types vs

/-- The machine has a typed instruction before it, with operands of the right types. -/
structure TypedAt (p : Program) (types : HeapTyping) (point : Point) (plan plan' : Plan)
    (vs : List Value) (i : Instruction) (m : Machine) : Prop extends At p point vs i m where
  typed : plan.Holds m.exe types vs
  moves : Moves p m.exe m.registers.current point.pc point.toDirective plan plan'
  awaits : ∀ next ∈ point.successors, p.Awaits m.exe m.registers.current next.1 plan'

/-- Objects and globals have types, as long as every slot has a handle of its own. -/
def StoreTypable (m : Machine) : Prop := m.heap.Small → ∃ types, m.TypedBy types

/-- The machine is typed, as long as every slot has a handle of its own. -/
def Typable (p : Program) (m : Machine) : Prop := m.heap.Small → ∃ types, m.Typed p types

variable {p : Program} {types types' : HeapTyping} {m m' : Machine} {entry : Nat} {point : Point}
  {plan plan' : Plan} {vs : List Value} {i : Instruction}
variable {tys : List Ty} {ty : Ty} {floor : Nat} {α : Type} {f : Function} {us args : List Value}
  {v : Value}

/-- What is fetched is a typed instruction. -/
theorem Typed.at_fetched (typed : m.Typed p types) (framed : m.Framed p entry)
    (compiled : CompiledFrom p m.exe) (fetched : fetch m.code m.registers.pc = .ok i) :
  ∃ point plan plan' vs, m.TypedAt p types point plan plan' vs i ∧ point.pc = m.registers.pc
  := by
  obtain ⟨point, vs, here, pc⟩ := framed.at_fetched compiled fetched
  obtain ⟨plan, vs', ⟨point', expects, pc'⟩ | ⟨top, ends, -⟩, held, typed'⟩ := typed.operands
  · obtain rfl := Piece.eq_of_mem_points here.listed expects.mem_points (pc.trans pc'.symm)
    obtain rfl := here.holds.unique held
    obtain ⟨plan', moves, awaits⟩ := expects.follows
    exact ⟨point, plan, plan', vs, ⟨here, typed', moves, awaits⟩, pc⟩
  · have bounds := Piece.bounds_of_mem_points here.listed
    have positive := point.op.size_pos
    unfold Point.next at bounds
    omega

/-- The machine has stayed in its frame. -/
theorem Typed.stays (typed : m.Typed p types) (stays : m.Stays m') (store : m'.TypedBy types')
    (cells : ∀ tys, CellTypes p m.exe m.stack m.registers.current m.registers.base tys →
      m.stack.CellsTyped m.exe types tys → m'.stack.CellsTyped m.exe types' tys)
    (awaits : p.Awaits m.exe m.registers.current m'.registers.pc plan)
    (held : m'.stack.Holds m.operandBase vs) (holds : plan.Holds m.exe types' vs) :
  m'.Typed p types'
  where
  store := store
  frames := by
    obtain ⟨tys, cellTypes, typedCells⟩ := typed.frames
    rw [stays.exe, stays.current, stays.base]
    refine ⟨tys, cellTypes.of_shape ?_, cells tys cellTypes typedCells⟩
    intro k under
    rw [cellTypes.length_eq] at under
    exact stays.shape k under
  operands := by
    unfold operandBase
    rw [stays.exe, stays.current, stays.base]
    exact ⟨plan, vs, awaits, held, holds⟩

/-- The cells of the frames have stayed, and their values have kept their types. -/
theorem Guarded.cellsTyped (guarded : m.Guarded floor) (small : m.heap.Small)
    (agrees : types.Agrees m.heap types') (held : m.stack.Holds m.operandBase vs) {s : Stack}
    (same : ∀ k, k < m.operandBase → s.cells[k]? = m.stack.cells[k]?) (tys : List Ty)
    (cellTypes : CellTypes p m.exe m.stack m.registers.current m.registers.base tys)
    (typed : m.stack.CellsTyped m.exe types tys) :
  s.CellsTyped m.exe types' tys
  := by
  have height : tys.length = m.operandBase := cellTypes.length_eq
  have le := held.le_sp
  apply Stack.CellsTyped.of_cells (typed.agrees _ agrees) (by rwa [height])
  intro k v under found
  exact guarded.cells k v (by omega) found small

/-! ### Instructions that stay in the frame -/

theorem TypedBy.withStack (typed : m.TypedBy types) (s : Stack) :
  ({ m with stack := s } : Machine).TypedBy types
  := ⟨typed.heap, typed.globals⟩

/-- Operating on operands changes nothing but the stack besides what is computed. -/
theorem stateOf_operate {low early late : Nat} {compute : List Value → MachineM (Option Value)}
    (h : m.stack.Holds low vs) (enough : early ≤ vs.length) :
  ∃ s, stateOf (operate vs.length early late compute m)
    = { stateOf (compute vs (m.lowered early)) with stack := s }
  := by
  have sp := h.sp_eq
  unfold operate
  rw [bind_of_ok (top_eq h), bind_of_ok (shrink_eq (by omega)), stateOf_bind]
  cases computed : compute vs (m.lowered early) with
  | error trap m₁ => exact ⟨m₁.stack, rfl⟩
  | ok result m₁ =>
    have shrunk := stateOf_onStack (Stack.shrink late) m₁
    dsimp only
    rw [stateOf_bind, stateOf_ok]
    cases ran : onStack (Stack.shrink late) m₁ with
    | error trap m₂ =>
      rw [ran] at shrunk
      exact ⟨_, shrunk⟩
    | ok _ m₂ =>
      rw [ran] at shrunk
      obtain rfl : m₂ = { m₁ with stack := _ } := shrunk
      cases result with
      | none => exact ⟨_, rfl⟩
      | some v => exact ⟨_, stateOf_onStack (Stack.push v) { m₁ with stack := _ }⟩

theorem stateOf_execute_plain {low : Nat} (plain : i.op.isPlain) (h : m.stack.Holds low vs)
    (count : vs.length = i.reads) :
  ∃ s, stateOf (execute i m) = { stateOf (i.compute vs (m.lowered i.early)) with stack := s }
  := by
  have drops := i.drops_le_reads
  obtain ⟨s, operated⟩ : ∃ s, stateOf (operate vs.length i.early i.late i.compute m)
      = { stateOf (i.compute vs (m.lowered i.early)) with stack := s } :=
    stateOf_operate h (by omega)
  rw [count] at operated
  refine ⟨s, ?_⟩
  rw [execute_eq_operate plain h count, stateOf_bind, ← operated]
  cases operate i.reads i.early i.late i.compute m with
  | ok _ m₁ => rfl
  | error trap m₁ => rfl

/-- Where an instruction goes on that neither jumps nor returns. -/
theorem TypedAt.goesOn (here : m.TypedAt p types point plan plan' vs i) (noJump : ¬i.op.isJump)
    (noReturn : i.op ≠ .ret) :
  p.Awaits m.exe m.registers.current i.nextPc plan'
  := by
  rw [here.op] at noJump noReturn
  have awaits := here.awaits (i.nextPc, point.depth - point.takes + point.leaves)
  rw [Point.successors_of_plain (by simpa using noJump) noReturn, here.nextPc_eq] at awaits
  rw [here.nextPc_eq]
  exact awaits (List.mem_singleton_self _)

/-- What an instruction leaves: a typed machine, or a fault with typed objects and globals. -/
abbrev LeavesTyped (p : Program) (r : EStateM.Result Trap Machine (Option Value)) : Prop :=
  Ends (fun ended m' => ended = none ∧ m'.Typable p) (fun _ m' => m'.StoreTypable) r

section

variable (typed : m.Typed p types) (sheltered : m.Sheltered p entry)
include typed sheltered

theorem Typed.plain (small : m.heap.Small) (here : m.TypedAt p types point plan plan' vs i)
    (reads : i.reads = point.takes) (plain : i.op.isPlain) :
  LeavesTyped p (execute i (m.advanced i))
  := by
  obtain ⟨us, ws, rfl, -, upper⟩ := here.split
  have held := here.holds
  have count : ws.length = i.reads := by rw [upper, reads]
  have top : (m.advanced i).stack.Holds (m.operandBase + us.length) ws := held.upper
  let start := (m.advanced i).lowered i.early
  have secure := sheltered.guarded.secure
  have retypes := here.moves.retypes_compute (m := start) sheltered.compiled
    ⟨typed.store.heap, typed.store.globals⟩ small ⟨secure.sound, secure.masks, secure.globals⟩
    here.op (fun _ => here.number_eq) plain count reads here.typed
    (fun v listed => sheltered.guarded.live held v listed small)
  cases ran : Machine.execute i (m.advanced i) with
  | error trap m' =>
    intro small'
    obtain ⟨s, ended⟩ := stateOf_execute_plain plain top count
    rw [ran] at ended
    obtain rfl : m' = { stateOf (i.compute ws start) with stack := s } := ended
    obtain ⟨types', -, store, -⟩ := retypes small'
    exact ⟨types', store.withStack s⟩
  | ok ended m' =>
    obtain ⟨stays, -⟩ := sheltered.framed.plain here.toAt reads plain ran
    obtain ⟨rfl, result, m₁, computed, rewritten, same⟩ :=
      execute_plain_eq_ok plain top count ran
    refine ⟨rfl, fun small' => ?_⟩
    have registers := (i.offStack_compute ws).registers start
    rw [computed] at retypes registers
    have pc : m'.registers.pc = i.nextPc := by
      rw [same]
      exact congrArg Registers.pc registers
    have goesOn := here.goesOn (by rintro jumps; simp [Op.isPlain, jumps] at plain)
      (by rintro returns; rw [returns] at plain; cases plain)
    rw [← pc] at goesOn
    obtain ⟨types', agrees, store, result⟩ := retypes (by rw [same] at small'; exact small')
    refine ⟨types', typed.stays stays ?_ (sheltered.guarded.cellsTyped small agrees held ?_) goesOn
      (rewritten.joined held) (result _ _ rfl)⟩
    · rw [same]
      exact store.withStack _
    · intro k under
      exact rewritten.below k (by omega)

theorem Typed.pushStack {site : Site} {kind : SlotKind} {slot : Nat} {ty' : Ty}
    (inRange : p.SlotsInRange) (small : m.heap.Small)
    (here : m.TypedAt p types point (.plain tys) (.plain (tys ++ [ty'])) vs i)
    (load : i.op = .pushStack kind)
    (operand : point.operand = .number (Frame.slotOffset site.params slot))
    (frame : m.exe.HasSite m.registers.current site)
    (declared : m.exe.slotTy? m.registers.current slot = some ty) (fits : m.exe.Fits ty ty') :
  LeavesTyped p (execute i (m.advanced i))
  := by
  obtain ⟨v, -, found, executed⟩ :=
    here.execute_load sheltered.framed sheltered.compiled inRange load
  have value : v.HasType m.exe types ty' := by
    obtain ⟨cellTys, cellTypes, typedCells⟩ := typed.frames
    have there := cellTypes.slot frame declared
    rw [← here.number_eq operand] at there
    exact (typedCells _ ty v there found).fits fits
  cases ran : Machine.execute i (m.advanced i) with
  | error trap m' =>
    intro _
    rw [executed] at ran
    rcases bind_eq_error.1 ran with failed | ⟨_, _, _, impossible⟩
    · obtain ⟨s, -, rfl⟩ := onStack_eq_error failed
      exact ⟨types, typed.store.heap, typed.store.globals⟩
    · cases impossible
  | ok ended m' =>
    obtain ⟨stays, -⟩ :=
      sheltered.framed.pushStack here.toAt sheltered.compiled inRange load ran
    rw [executed] at ran
    obtain ⟨_, m₁, run₁, rest₁⟩ := bind_eq_ok.1 ran
    obtain ⟨rfl, rfl⟩ := pure_eq_ok.1 rest₁
    obtain ⟨s, pushed, rfl⟩ := onStack_eq_ok run₁
    have held := here.holds
    have le := held.le_sp
    have fits := held.fits
    have goesOn := here.goesOn (by simp [load, Op.isJump]) (by simp [load])
    refine ⟨rfl, fun _ => ⟨types, typed.stays stays ?_ ?_ goesOn (held.push pushed) ?_⟩⟩
    · exact ⟨typed.store.heap, typed.store.globals⟩
    · apply sheltered.guarded.cellsTyped small (.refl _ _) held
      intro k under
      have others : ∀ k, k ≠ m.stack.sp → k < m.stack.cells.size →
          s.cells[k]? = m.stack.cells[k]? := (Stack.pushCell_eq_ok pushed).others
      exact others k (by omega) (by omega)
    · exact List.rel_append here.typed (.cons value .nil)

theorem Typed.popStack {site : Site} {kind : SlotKind} {slot : Nat} {ty' : Ty}
    (inRange : p.SlotsInRange)
    (here : m.TypedAt p types point (.plain (tys ++ [ty])) (.plain tys) vs i)
    (store : i.op = .popStack kind)
    (operand : point.operand = .number (Frame.slotOffset site.params slot))
    (frame : m.exe.HasSite m.registers.current site)
    (declared : m.exe.slotTy? m.registers.current slot = some ty') (fits : m.exe.Fits ty ty') :
  LeavesTyped p (execute i (m.advanced i))
  := by
  obtain ⟨us, v, rfl, -, inside, -, executed⟩ :=
    here.execute_store sheltered.framed sheltered.compiled inRange store
  obtain ⟨below, top⟩ := HaveTypes.split here.typed rfl
  have value := (List.forall₂_cons.1 top).1.fits fits
  obtain ⟨stays, -⟩ :=
    sheltered.framed.popStack here.toAt sheltered.compiled inRange store executed
  have left : ((m.advanced i).lowered 1).stack.Holds m.operandBase us := here.holds.lowered
  have goesOn := here.goesOn (by simp [store, Op.isJump]) (by simp [store])
  rw [executed]
  refine ⟨rfl, fun _ => ⟨types, typed.stays stays ⟨typed.store.heap, typed.store.globals⟩ ?_ goesOn
    (left.set_below inside) below⟩⟩
  intro cellTys cellTypes typedCells
  apply typedCells.set
  intro ty'' there
  have slot := cellTypes.slot frame declared
  rw [← here.number_eq operand] at slot
  cases there.symm.trans slot
  exact value

theorem Typed.jump (small : m.heap.Small) (here : m.TypedAt p types point plan plan vs i)
    {params : Nat} {Allowed : Nat → Prop} (proper : point.toDirective.Proper params Allowed)
    (jump : i.op = .jump) :
  LeavesTyped p (execute i (m.advanced i))
  := by
  have executed := execute_jump (m := m.advanced i) jump
  obtain ⟨stays, -⟩ := sheltered.framed.jump here.toAt proper jump executed
  have goesOn := here.awaits _ (here.target_mem_successors proper (by rw [jump]; rfl))
  rw [executed]
  refine ⟨rfl, fun _ => ⟨types, typed.stays stays ⟨typed.store.heap, typed.store.globals⟩ ?_ goesOn
    here.holds here.typed⟩⟩
  exact sheltered.guarded.cellsTyped small (.refl _ _) here.holds fun _ _ => rfl

theorem Typed.jumpIf {tys : List Ty} {ty : Ty} (small : m.heap.Small)
    (here : m.TypedAt p types point (.plain (tys ++ [ty])) (.plain tys) vs i) {params : Nat}
    {Allowed : Nat → Prop} (proper : point.toDirective.Proper params Allowed) (truth : Bool)
    (jump : i.op = if truth then .jumpIfTrue else .jumpIfFalse) :
  LeavesTyped p (execute i (m.advanced i))
  := by
  obtain ⟨us, v, rfl, -, next, executed⟩ := here.execute_condition jump
  have target := here.target_mem_successors proper (Op.isJump_of_condition jump)
  obtain ⟨below, -⟩ := HaveTypes.split here.typed rfl
  have left : ((m.advanced i).lowered 1).stack.Holds m.operandBase us := here.holds.lowered
  have kept := sheltered.guarded.cellsTyped (p := p) small (HeapTyping.Agrees.refl _ types)
    here.holds fun _ _ => rfl
  rw [executed]
  refine ⟨rfl, fun _ => ⟨types, ?_⟩⟩
  split
  · exact typed.stays (.of_cells rfl rfl rfl rfl fun _ _ => rfl)
      ⟨typed.store.heap, typed.store.globals⟩ kept (here.awaits _ target) left below
  · exact typed.stays (.of_cells rfl rfl rfl rfl fun _ _ => rfl)
      ⟨typed.store.heap, typed.store.globals⟩ kept (here.awaits _ next) left below

end

/-! ### Returns -/

/-- A return leaves the result on top of the operands of the caller. -/
theorem Typed.ret {ty : Ty} (typed : m.Typed p types) (sheltered : m.Sheltered p entry)
    (here : m.TypedAt p types point (.plain [ty]) plan' vs i) (returns : i.op = .ret)
    (fits : ∀ index f, m.registers.current = some index → m.exe.functions[index]? = some f →
      m.exe.Fits ty f.returnType) :
  LeavesTyped p (execute i (m.advanced i))
  := by
  obtain ⟨index, f, info, running, found, frame, -⟩ :=
    here.exists_frame sheltered.framed sheltered.compiled returns
  obtain ⟨cellTys, cellTypes, typedCells⟩ := typed.frames
  rw [running] at cellTypes
  generalize placed : m.registers.base = base at cellTypes
  cases cellTypes with
  | @call _ _ f' info' caller below tys result found' height record called awaits fits' cellTypes =>
    subst placed
    obtain rfl : f = f' := Option.some.inj (found.symm.trans found')
    obtain rfl : info = info' := by
      rw [frame.record] at record
      exact Option.some.inj (Option.some.inj record)
    obtain ⟨v, rfl⟩ := List.length_eq_one_iff.1 here.typed.length_eq
    have value : v.HasType m.exe types result :=
      ((List.forall₂_cons.1 here.typed).1.fits (fits index f running found)).fits fits'
    have goesOn : info.caller ≠ .host := by
      rw [called]
      cases caller with
      | none | some index => exact Caller.noConfusion
    have alone : m.At p point ([] ++ [v]) i := here.toAt
    have executed := alone.execute_ret_eq returns running found frame
    rw [if_neg goesOn] at executed
    have framed := sheltered.framed.ret here.toAt sheltered.compiled returns executed
    obtain ⟨ws, held, -⟩ := framed.operands
    let m' := ((m.advanced i).atPc i.pc).returned info v
    have current : m'.registers.current = caller := returned_current called v _
    have inside : m.registers.base < m.stack.cells.size := by
      obtain ⟨cell, there, -⟩ := Option.map_eq_some_iff.1 frame.record
      have := (Array.getElem?_eq_some_iff.1 there).1
      omega
    have same : ∀ k, k < (below ++ tys).length → m'.stack.cells[k]? = m.stack.cells[k]? := by
      intro k under
      rw [← height] at under
      exact Array.getElem?_setIfInBounds_ne (Nat.ne_of_gt under)
    have bottom : m'.operandBase = below.length := by
      rw [operandBase, current, cellTypes.length_eq]
      rfl
    have whole : m'.stack.CellsTyped m.exe types (below ++ (tys ++ [result])) := by
      rw [← List.append_assoc]
      have returned : HaveTypes m.exe types [result] [v] := .cons value .nil
      apply (typedCells.left.of_cells same).append returned
      intro k w listed
      obtain ⟨rfl, rfl⟩ : k = 0 ∧ v = w := by
        cases k with
        | zero => exact ⟨rfl, Option.some.inj listed⟩
        | succ k => cases listed
      rw [← height]
      exact Array.getElem?_setIfInBounds_self_of_lt inside
    have count : (tys ++ [result]).length = ws.length := by
      have sp : m.registers.base + 1 = m'.operandBase + ws.length := held.sp_eq
      rw [List.length_append] at height ⊢
      rw [List.length_singleton]
      omega
    rw [executed]
    refine ⟨rfl, fun _ => ⟨types, ⟨typed.store.heap, typed.store.globals⟩, ⟨below, ?_, whole.left⟩,
      .plain (tys ++ [result]), ws, ?_, held, ?_⟩⟩
    · rw [current]
      apply cellTypes.of_shape
      intro k under
      exact Stack.shape_congr (same k (by rw [List.length_append]; omega))
    · rw [current]
      exact awaits
    · rw [bottom] at held
      exact whole.haveTypes held count

/-! ### Calls -/

/-- What is claimed for heaps whose slots have handles of their own need be shown for those only. -/
theorem ends_of_small {P : Prop} {Q : α → Machine → Prop} {E : Trap → Machine → Prop}
    {r : EStateM.Result Trap Machine α} (back : (stateOf r).heap.Small → P)
    (when : P → Ends (fun a m' => m'.heap.Small → Q a m') (fun trap m' => m'.heap.Small → E trap m')
      r) :
  Ends (fun a m' => m'.heap.Small → Q a m') (fun trap m' => m'.heap.Small → E trap m') r
  := by
  cases r with
  | ok a m' | error trap m' => exact fun small => when (back small) small

theorem retypes_defaultValue (typed : m.TypedBy types) (small : m.heap.Small) (secure : m.Secure)
    (ty : Ty) :
  Retypes (fun types' v => v.HasType m.exe types' ty) types m
    (modifyHeap (Heap.defaultValue ty) m)
  := .modifyHeap typed small secure fun small' =>
    typed.heap.defaultValue secure.sound ty small'

/-- Locals start with values of their types. -/
theorem TypedBy.pushLocals (typed : m.TypedBy types) (small : m.heap.Small)
    (guarded : m.Guarded floor) (harmless : m.Harmless) (decls : List VariableDecl) :
  Ends (fun _ m' => m'.heap.Small → ∃ types' vs, types.Agrees m.heap types' ∧ m'.TypedBy types'
      ∧ HaveTypes m.exe types' (decls.map (·.ty)) vs ∧ m.stack.Extended (vs.map .value) m'.stack)
    (fun _ m' => m'.StoreTypable) (Machine.pushLocals decls m)
  := by
  induction decls generalizing m types with
  | nil => exact fun _ => ⟨types, [], .refl _ _, typed, .nil, .refl _⟩
  | cons decl rest ih =>
    let v := (m.heap.defaultValue decl.ty).1
    let m₁ := m.withHeap (m.heap.defaultValue decl.ty).2
    obtain ⟨sound, grows, live, -⟩ := guarded.secure.sound.defaultValue decl.ty
    have outcome : Outcome (fun (r : Value) h => r.Live h) False m
        (modifyHeap (Heap.defaultValue decl.ty) m) := .modifyHeap guarded.secure sound grows live
    have made := outcome.secure
    have retypes := retypes_defaultValue typed small guarded.secure decl.ty
    rw [modifyHeap_eq] at made retypes
    have guarded₁ : m₁.Guarded floor := guarded.grows grows made rfl
    have pushes := guarded₁.push (v := v) live
    unfold Machine.pushLocals
    rw [bind_of_ok (modifyHeap_eq _ m)]
    cases ran : Machine.push v m₁ with
    | error trap m₂ =>
      obtain ⟨s, -, rfl⟩ := onStack_eq_error ran
      rw [bind_of_error ran]
      intro small'
      obtain ⟨types', -, store, -⟩ := retypes small'
      exact ⟨types', store.withStack s⟩
    | ok _ m₂ =>
      rw [ran] at pushes
      obtain ⟨pushed, same⟩ := push_eq_ok ran
      rw [bind_of_ok ran]
      have harmless₂ : m₂.Harmless := by
        rw [same]
        exact harmless
      have back := (StaysSmall.law.made (made_pushLocals rest) m₂ harmless₂).2
      apply ends_of_small back
      intro small₂
      have small₁ : m₁.heap.Small := by
        rw [same] at small₂
        exact small₂
      obtain ⟨types₁, agrees₁, store₁, first⟩ := retypes small₁
      have store₂ : m₂.TypedBy types₁ := by
        rw [same]
        exact store₁.withStack _
      apply (ih store₂ small₂ pushes harmless₂).mono _ fun _ _ kept => kept
      intro _ m' others small'
      obtain ⟨types₂, vs, agrees₂, store', values, extended⟩ := others small'
      rw [same] at agrees₂ values
      refine ⟨types₂, v :: vs, agrees₁.trans grows agrees₂, store', ?_, pushed.trans extended⟩
      exact .cons ((first v m₁ rfl).agrees (live small₁) agrees₂) values

/-- A change of the stack keeps objects and globals typed. -/
theorem TypedBy.onStack (typed : m.TypedBy types) (action : StackM α) :
  Ends (fun _ m' => m'.TypedBy types) (fun _ m' => m'.TypedBy types) (Machine.onStack action m)
  := by
  rw [onStack_eq]
  cases action m.stack with
  | ok a s | error trap s => exact typed.withStack s

/-- A function is entered with locals of their types above a call record. -/
theorem TypedBy.enterFunction (typed : m.TypedBy types) (small : m.heap.Small)
    (guarded : m.Guarded floor) (harmless : m.Harmless) {index : Nat} (caller : Caller)
    (found : m.exe.functions[index]? = some f) (enough : f.params.length ≤ m.stack.sp) :
  Ends (fun _ m' => m'.heap.Small → ∃ types' vs, types.Agrees m.heap types' ∧ m'.TypedBy types'
      ∧ HaveTypes m.exe types' (f.locals.map (·.ty)) vs
      ∧ m.stack.Extended (.call ⟨caller, m.registers.pc, m.registers.base⟩ :: vs.map .value) m'.stack)
    (fun _ m' => m'.StoreTypable) (Machine.enterFunction index f caller m)
  := by
  have reserves := guarded.reserve (Array.mem_of_getElem? found)
  have store := typed.onStack (Stack.reserve (Frame.recordSize + f.locals.length))
  rw [enterFunction_eq enough]
  cases run₁ : Machine.onStack (Stack.reserve (Frame.recordSize + f.locals.length)) m with
  | error trap m₁ =>
    rw [run₁] at store
    rw [bind_of_error run₁]
    exact fun _ => ⟨types, store⟩
  | ok _ m₁ =>
    rw [run₁] at reserves
    rw [bind_of_ok run₁]
    obtain ⟨s₁, reserved, rfl⟩ := onStack_eq_ok run₁
    let info : CallInfo := ⟨caller, m.registers.pc, m.registers.base⟩
    have records := reserves.pushCall info
    have store₁ := (typed.withStack s₁).onStack (Stack.pushCall info)
    cases run₂ : Machine.onStack (Stack.pushCall info) { m with stack := s₁ } with
    | error trap m₂ =>
      rw [run₂] at store₁
      rw [bind_of_error run₂]
      exact fun _ => ⟨types, store₁⟩
    | ok _ m₂ =>
      rw [run₂] at records
      rw [bind_of_ok run₂]
      obtain ⟨s₂, recorded, rfl⟩ := onStack_eq_ok run₂
      have room := (Stack.reserve_eq_ok reserved).extended
      have record := (Stack.pushCell_eq_ok recorded).extended
      apply ((typed.withStack s₂).pushLocals small records harmless f.locals).bind
      rintro _ m₃ pushed small'
      obtain ⟨types', vs, agrees, store', values, extended⟩ := pushed small'
      exact ⟨types', vs, agrees, ⟨store'.heap, store'.globals⟩, values,
        (room.trans record).trans extended⟩

/-- Objects and globals have kept their types, as long as native functions leave the heap alone. -/
def KeepsTypes (m m' : Machine) : Prop :=
  m.Harmless → m'.Harmless ∧ ∀ types, m.TypedBy types → m'.TypedBy types

instance : IsPreorder Machine KeepsTypes where
  refl _ harmless := ⟨harmless, fun _ typed => typed⟩
  trans _ _ _ first second harmless :=
    ⟨(second (first harmless).1).1, fun types typed =>
      (second (first harmless).1).2 types ((first harmless).2 types typed)⟩

/-- A native function changes neither objects nor globals. -/
theorem keepsTypes_callNative (index : Nat) (f : Function) :
  Follows KeepsTypes (callNative index f)
  := by
  apply Law.follows_callNative
  · intro α action _ m harmless
    rw [stateOf_onStack]
    exact ⟨harmless, fun types typed => typed.withStack _⟩
  · intro m index native args bound harmless
    rw [stateOf_onHost]
    refine ⟨harmless, fun types typed => ⟨?_, typed.globals⟩⟩
    have same := (harmless index native bound).heap args m.host
    exact (congrArg (Heap.TypedBy m.exe types) same).mpr typed.heap

section

variable (typed : m.Typed p types) (sheltered : m.Sheltered p entry) (wellTyped : p.WellTyped m.exe)
  (small : m.heap.Small) (here : m.At p point (us ++ args ++ [v]) i)
include typed sheltered wellTyped small here

/-- A call enters a function that takes the arguments. -/
theorem Typed.enterFunction (found : m.exe.functions[v.bits.toNat]? = some f)
    (code : f.isNative = false) (below : HaveTypes m.exe types tys us)
    (passed : HaveTypes m.exe types f.paramTys args)
    (awaits : p.Awaits m.exe m.registers.current (i.pc + 1) (.plain (tys ++ [ty])))
    (fits : m.exe.Fits f.returnType ty) :
  Ends (fun _ m' => m'.Typable p) (fun _ m' => m'.StoreTypable)
    (Machine.enterFunction v.bits.toNat f (callerOf m.registers.current)
      (((m.advanced i).atPc i.pc).lowered 1))
  := by
  let start := ((m.advanced i).atPc i.pc).lowered 1
  have held : start.stack.Holds m.operandBase (us ++ args) := here.holds.lowered
  have sp := held.sp_eq
  rw [List.length_append] at sp
  have params : args.length = f.params.length := by
    rw [← passed.length_eq, Function.paramTys, List.length_map]
  have count : us.length = tys.length := below.length_eq.symm
  have above := sheltered.framed.entry_le_operandBase
  have guarded : start.Guarded entry := by
    have sp' := here.holds.sp_eq
    rw [List.length_append, List.length_singleton] at sp'
    exact (sheltered.guarded.registers ((m.advanced i).atPc i.pc).registers).lowered 1
      (by change entry + 1 ≤ m.stack.sp; omega)
  have enters := TypedBy.enterFunction (m := start) ⟨typed.store.heap, typed.store.globals⟩ small
    guarded sheltered.harmless (callerOf m.registers.current) found (by omega)
  change Ends _ _ (Machine.enterFunction v.bits.toNat f _ start)
  cases ran : Machine.enterFunction v.bits.toNat f (callerOf m.registers.current) start with
  | error trap m' =>
    rw [ran] at enters
    exact enters
  | ok _ m' =>
    rw [ran] at enters
    intro small'
    obtain ⟨-, same⟩ := enterFunction_eq_ok (by omega) ran
    obtain ⟨types', locals, agrees, store, values, extended⟩ := enters small'
    obtain ⟨cellTys, cellTypes, typedCells⟩ := typed.frames
    have height : cellTys.length = m.operandBase := cellTypes.length_eq
    have base : start.stack.sp - f.params.length = (cellTys ++ tys).length := by
      rw [List.length_append]
      omega
    rw [base] at same
    rw [← height] at held
    have inside := held.fits
    have live := sheltered.guarded.live here.holds
    have kept : start.stack.CellsTyped m.exe types' cellTys :=
      sheltered.guarded.cellsTyped small agrees here.holds (fun _ _ => rfl) cellTys cellTypes
        typedCells
    have cells : m'.stack.CellsTyped m.exe types' (cellTys ++ tys ++ f.frameTys) :=
      kept.enter held (below.agrees (fun v listed => live v (by simp [listed]) small) agrees)
        (passed.agrees (fun v listed => live v (by simp [listed]) small) agrees) values extended
    obtain ⟨frame, empty⟩ :=
      (held.upper.extended.trans extended).frameAt params (by simpa using values.length_eq.symm)
    have low : (start.stack.lowered args.length).sp = (cellTys ++ tys).length := by
      rw [Stack.lowered_sp]
      omega
    rw [low] at frame empty
    rw [same]
    refine ⟨types', ?_, ⟨cellTys ++ tys ++ f.frameTys, ?_, cells⟩, .plain [], [], ?_, ?_, .nil⟩
    · rw [same] at store
      exact ⟨store.heap, store.globals⟩
    · refine .call found rfl frame.record rfl awaits fits (cellTypes.of_shape ?_)
      intro k under
      exact Stack.shape_congr (extended.below k (by omega) (by omega))
    · exact wellTyped.awaits_start sheltered.compiled
        (.inl (sheltered.compiled.lands_points found code))
    · have size := Executable.frameSize_eq found
      change m'.stack.Holds ((cellTys ++ tys).length + m.exe.frameSize (some v.bits.toNat)) []
      rwa [size]

theorem Typed.callNative (call : i.op = .invoke)
    (found : m.exe.functions[v.bits.toNat]? = some f) (native : f.isNative = true)
    (count : args.length = point.args) (params : f.params.length = point.args)
    (below : HaveTypes m.exe types tys us)
    (awaits : p.Awaits m.exe m.registers.current (i.pc + 1) (.plain (tys ++ [ty])))
    (fits : m.exe.Fits f.returnType ty) :
  Ends (fun _ m' => Typable p
      { m' with registers := { m'.registers with pc := m'.registers.pc + 1 } })
    (fun _ m' => m'.StoreTypable)
    (Machine.callNative v.bits.toNat f (((m.advanced i).atPc i.pc).lowered 1))
  := by
  let start := ((m.advanced i).atPc i.pc).lowered 1
  have store := (keepsTypes_callNative v.bits.toNat f start sheltered.harmless).2 types
    ⟨typed.store.heap, typed.store.globals⟩
  change Ends _ _ (Machine.callNative v.bits.toNat f start)
  cases ran : Machine.callNative v.bits.toNat f start with
  | error trap m' =>
    rw [ran] at store
    exact fun _ => ⟨types, store⟩
  | ok _ m' =>
    rw [ran] at store
    have held : start.stack.Holds m.operandBase (us ++ args) := here.holds.lowered
    have depth : us.length + (point.args + 1) = point.depth := by
      rw [← here.depth, List.length_append, List.length_append, List.length_singleton]
      omega
    obtain ⟨stays, -⟩ :=
      sheltered.framed.callNative here call found count params depth ran
    obtain ⟨procedure, r, bound, computed, rewritten, same⟩ :=
      callNative_eq_ok (m := start) sheltered.framed.linked found held.upper (by omega) ran
    have plain := (sheltered.harmless _ procedure bound).plain _ _ r _ computed
    have value : r.HasType m.exe types ty :=
      (Value.HasType.of_plain plain (wellTyped.natives _ f found native)).fits fits
    have pc : m'.registers.pc + 1 = i.pc + 1 := by
      rw [same]
      rfl
    rw [← pc] at awaits
    refine fun _ => ⟨types, typed.stays stays ⟨store.heap, store.globals⟩ ?_ awaits
      (rewritten.joined held) (List.rel_append below (.cons value .nil))⟩
    apply sheltered.guarded.cellsTyped small (.refl _ _) here.holds
    intro k under
    exact rewritten.below k (by omega)

/-- A call of a function that takes the arguments and makes what the code goes on with. -/
theorem Typed.invoke (call : i.op = .invoke) (count : args.length = point.args)
    (below : HaveTypes m.exe types tys us)
    (awaits : p.Awaits m.exe m.registers.current i.nextPc (.plain (tys ++ [ty])))
    (applies : ∀ f, m.exe.functions[v.bits.toNat]? = some f →
      HaveTypes m.exe types f.paramTys args ∧ m.exe.Fits f.returnType ty) :
  LeavesTyped p (execute i (m.advanced i))
  := by
  let site := (m.advanced i).atPc i.pc
  have held : site.stack.Holds m.operandBase (us ++ args ++ [v]) := here.holds
  have next : i.nextPc = i.pc + 1 := by
    unfold Instruction.nextPc
    rw [call]
    rfl
  rw [next] at awaits
  rw [execute_invoke call]
  refine Ends.bind (Q := fun _ m' => m'.Typable p) ?_ fun _ _ kept => ⟨rfl, kept⟩
  cases found : m.exe.functions[v.bits.toNat]? with
  | none =>
    rw [invoke_of_none held found]
    exact fun _ => ⟨types, typed.store.heap, typed.store.globals⟩
  | some f =>
    obtain ⟨passed, fits⟩ := applies f found
    have params : f.params.length = point.args := by
      rw [← count, ← passed.length_eq, Function.paramTys, List.length_map]
    rw [invoke_eq held found]
    split
    · next native =>
        exact (typed.callNative sheltered wellTyped small here call found native count params below
          awaits fits).bind fun _ _ kept => kept
    · next code =>
        exact typed.enterFunction sheltered wellTyped small here found (by simpa using code) below
          passed awaits fits

end

end Machine

end Bytecode
