import Mathlib
import Bytecode.Proofs.Machine.Handles
import Bytecode.Proofs.Machine.Integrity

/-!
# Guarded machines

A machine is `Guarded` when it is secure and the values in the cells in use are live. Collections
keep it so, since all of these values are roots, and so does every instruction of a machine whose
frames are in order: what it pushes or stores is an operand, a variable of its frame, a global, an
element, a field or a new object. `Machine.Fails` says that this holds of a failed action as well,
and names the cause of a crash, which is never a missing object.
-/

namespace Bytecode

open Machine

namespace Stack

variable {s : Stack} {k : Nat} {v : Value}

/-- An object that a cell in use refers to is a root. -/
theorem mem_roots {handle : Handle} (used : k < s.sp) (found : s.cells[k]? = some (.value v))
    (refers : v.handle? = some handle) :
  handle ∈ s.roots
  := by
  have listed : Cell.value v ∈ s.live := by
    apply List.mem_of_getElem? (i := k)
    rw [live, List.getElem?_take_of_lt used, Array.getElem?_toList, found]
  exact List.mem_filterMap.2 ⟨_, listed, refers⟩

/-- The operands on top of the stack are values of cells in use. -/
theorem Holds.exists_cell {low : Nat} {vs : List Value} (h : s.Holds low vs) (listed : v ∈ vs) :
  ∃ k, low ≤ k ∧ k < s.sp ∧ s.cells[k]? = some (.value v)
  := by
  obtain ⟨k, found⟩ := List.getElem?_of_mem listed
  have inside := (List.getElem?_eq_some_iff.1 found).1
  have sp := h.sp_eq
  exact ⟨low + k, by omega, by omega, h.cell k v found⟩

end Stack

namespace Heap

variable {h : Heap}

theorem Sound.withThreshold (sound : h.Sound) (threshold : Nat) :
  ({ h with threshold } : Heap).Sound
  where
  wellFormed := ⟨sound.wellFormed.free_nodup, sound.wellFormed.mem_free, sound.wellFormed.live_eq,
    sound.wellFormed.unmarked⟩
  intact small i o found := by
    have intact := sound.intact small i o found
    cases o with
    | refs items | inst class_ fields => exact intact
    | _ => trivial

/-- A collection makes no objects and changes none. -/
theorem Sound.get?_of_reclaim (sound : h.Sound) {roots : List Handle} {handle : Handle}
    {o : Object} (found : (h.reclaim roots).2.get? handle = some o) :
  h.get? handle = some o
  := by
  rw [get?_eq_objectAt] at found
  apply (sound.wellFormed.objectAt_reclaim_eq_some_iff.1 found).1

end Heap

namespace Machine

variable {m m' : Machine} {floor : Nat} {v : Value}

/-- The machine is secure, so many cells at least are in use, and their values are live. -/
structure Guarded (floor : Nat) (m : Machine) : Prop where
  secure : m.Secure
  floor_le : floor ≤ m.stack.sp
  fits : m.stack.sp ≤ m.stack.cells.size
  cells : ∀ k v, k < m.stack.sp → m.stack.cells[k]? = some (.value v) → m.HasLive v

/-- An action has failed with a guarded machine, and if with a crash, for a certain cause. -/
def Fails (floor : Nat) (Cause : Machine → Prop) (trap : Trap) (m : Machine) : Prop :=
  m.Guarded floor ∧ (trap = .crash → m.heap.Small → Cause m)

theorem Fails.mono {Cause Cause' : Machine → Prop} {trap : Trap} (fails : m.Fails floor Cause trap)
    (weaker : Cause m → Cause' m) :
  m.Fails floor Cause' trap
  := ⟨fails.1, fun crashed small => weaker (fails.2 crashed small)⟩

/-- The stack needs an array that cannot be made, for one more cell or for the frame of a
function. -/
def StackTooLarge (m : Machine) : Prop :=
  m.stack.CannotGrow 1
    ∨ ∃ f ∈ m.exe.functions, m.stack.CannotGrow (Frame.recordSize + f.locals.length)

namespace Guarded

section

variable (guarded : m.Guarded floor)
include guarded

theorem registers (registers : Registers) :
  ({ m with registers } : Machine).Guarded floor
  := ⟨⟨guarded.secure.sound, guarded.secure.masks, guarded.secure.globals⟩, guarded.floor_le,
    guarded.fits, guarded.cells⟩

/-- Another stack whose values are live. -/
theorem withStack {s : Stack} {floor' : Nat} (le : floor' ≤ s.sp) (fits : s.sp ≤ s.cells.size)
    (cells : ∀ k v, k < s.sp → s.cells[k]? = some (.value v) → m.HasLive v) :
  ({ m with stack := s } : Machine).Guarded floor'
  := ⟨⟨guarded.secure.sound, guarded.secure.masks, guarded.secure.globals⟩, le, fits, cells⟩

/-- Cells that are no longer in use. -/
theorem truncate {floor' sp : Nat} (above : floor' ≤ sp) (below : sp ≤ m.stack.sp) :
  ({ m with stack := { m.stack with sp } } : Machine).Guarded floor'
  := by
  refine guarded.withStack (s := { m.stack with sp }) above (Nat.le_trans below guarded.fits) ?_
  intro k v used found
  exact guarded.cells k v (Nat.lt_of_lt_of_le used below) found

/-- A live value in a cell. -/
theorem withCell (live : m.HasLive v) {floor' sp index : Nat} (above : floor' ≤ sp)
    (below : sp ≤ m.stack.sp) :
  ({ m with stack := { m.stack with
    cells := m.stack.cells.setIfInBounds index (.value v), sp } } : Machine).Guarded floor'
  := by
  have fits := guarded.fits
  refine guarded.withStack (s := { m.stack with
    cells := m.stack.cells.setIfInBounds index (.value v), sp }) above ?_ ?_
  · change sp ≤ (m.stack.cells.setIfInBounds index (.value v)).size
    rw [Array.size_setIfInBounds]
    omega
  · intro k w used found
    change k < sp at used
    change (m.stack.cells.setIfInBounds index (.value v))[k]? = some (.value w) at found
    rw [Array.getElem?_setIfInBounds] at found
    split at found
    · split at found
      all_goals cases found
      exact live
    · exact guarded.cells k w (by omega) found

theorem lowered (count : Nat) (enough : floor + count ≤ m.stack.sp) :
  (m.lowered count).Guarded floor
  := guarded.truncate (by omega) (Nat.sub_le _ _)

end

/-- All objects are still there, and the stack is the same. -/
theorem grows (guarded : m.Guarded floor) (grows : m.heap.Grows m'.heap) (secure : m'.Secure)
    (same : m'.stack = m.stack) :
  m'.Guarded floor
  where
  secure := secure
  floor_le := same ▸ guarded.floor_le
  fits := same ▸ guarded.fits
  cells k v used found := by
    rw [same] at used found
    exact (guarded.cells k v used found).grows grows

section

variable (guarded : m.Guarded floor)
include guarded

/-- The operands on top of the stack are live. -/
theorem live {low : Nat} {vs : List Value} (h : m.stack.Holds low vs) :
  ∀ v ∈ vs, m.HasLive v
  := by
  intro v listed
  obtain ⟨k, -, used, found⟩ := h.exists_cell listed
  exact guarded.cells k v used found

/-- A cell that is a call record or has a live value is pushed, or there is no room for it. -/
theorem pushCell {cell : Cell} (live : ∀ v, cell = .value v → m.HasLive v) :
  Ends (fun _ m' => m'.Guarded floor) (Fails floor StackTooLarge)
    (onStack (Stack.pushCell cell) m)
  := by
  have above := guarded.floor_le
  have fits := guarded.fits
  rw [onStack_eq]
  cases ran : Stack.pushCell cell m.stack with
  | ok _ s =>
    have pushed := Stack.pushCell_eq_ok ran
    have sp := pushed.sp_eq
    have room := pushed.fits
    apply guarded.withStack (by omega) (by omega)
    intro k v used found
    by_cases top : k = m.stack.sp
    · subst top
      rw [pushed.top] at found
      exact live v (Option.some.inj found)
    · rw [pushed.others k top (by omega)] at found
      exact guarded.cells k v (by omega) found
  | error trap s =>
    obtain ⟨rfl, -, cause⟩ := Stack.pushCell_eq_error fits ran
    refine ⟨guarded, fun crashed _ => .inl ?_⟩
    rcases cause with ⟨overflow, -⟩ | ⟨-, large⟩
    · rw [overflow] at crashed
      cases crashed
    · exact large

theorem push (live : m.HasLive v) :
  Ends (fun _ m' => m'.Guarded floor) (Fails floor StackTooLarge) (Machine.push v m)
  := by
  apply guarded.pushCell
  rintro w same
  cases same
  exact live

theorem pushCall (info : CallInfo) :
  Ends (fun _ m' => m'.Guarded floor) (Fails floor StackTooLarge)
    (onStack (Stack.pushCall info) m)
  := guarded.pushCell (by nofun)

theorem reserve {f : Function} (listed : f ∈ m.exe.functions) :
  Ends (fun _ m' => m'.Guarded floor) (Fails floor StackTooLarge)
    (onStack (Stack.reserve (Frame.recordSize + f.locals.length)) m)
  := by
  have above := guarded.floor_le
  have fits := guarded.fits
  rw [onStack_eq]
  cases ran : Stack.reserve (Frame.recordSize + f.locals.length) m.stack with
  | ok _ s =>
    have reserved := Stack.reserve_eq_ok ran
    have sp := reserved.sp_eq
    have size := reserved.size_le
    apply guarded.withStack (by omega) (by omega)
    intro k v used found
    rw [reserved.cells k (by omega)] at found
    exact guarded.cells k v (by omega) found
  | error trap s =>
    obtain ⟨rfl, cause⟩ := Stack.reserve_eq_error ran
    refine ⟨guarded, fun crashed _ => .inr ⟨f, listed, ?_⟩⟩
    rcases cause with ⟨overflow, -⟩ | ⟨-, large⟩
    · rw [overflow] at crashed
      cases crashed
    · exact large

end

/-! ### Operating -/

/-- Operating on operands with a computation that leaves no dangling handles. -/
theorem operate (guarded : m.Guarded floor) {low early late : Nat} {vs : List Value} {C : Prop}
    {compute : List Value → MachineM (Option Value)} (off : OffStack (compute vs))
    (h : m.stack.Holds low vs) (above : floor ≤ low) (drops : early + late ≤ vs.length)
    (outcome : Outcome Outcome.YieldsLive C (m.lowered early) (compute vs (m.lowered early))) :
  Ends (fun _ m' => m'.Guarded floor) (Fails floor fun m' => C ∨ m'.StackTooLarge)
    (Machine.operate vs.length early late compute m)
  := by
  have sp := h.sp_eq
  have start := guarded.lowered early (by omega)
  have kept := off.stack (m.lowered early)
  obtain ⟨grows, secure, result, crash⟩ := outcome
  unfold Machine.operate
  rw [bind_of_ok (top_eq h), bind_of_ok (shrink_eq (by omega))]
  cases computed : compute vs (m.lowered early) with
  | error trap m₁ =>
    rw [computed] at grows secure crash kept
    rw [bind_of_error computed]
    refine ⟨start.grows grows secure kept, ?_⟩
    intro crashed small
    subst crashed
    exact .inl (crash m₁ rfl small)
  | ok yielded m₁ =>
    rw [computed] at grows secure result kept
    change m₁.stack = m.stack.lowered early at kept
    have sp₁ : m₁.stack.sp = m.stack.sp - early := congrArg Stack.sp kept
    have made : m₁.Guarded floor := start.grows grows secure kept
    have left := made.lowered late (by omega)
    rw [bind_of_ok computed, bind_of_ok (shrink_eq (by omega))]
    cases yielded with
    | none => exact left
    | some v =>
      have live : (m₁.lowered late).HasLive v := fun small => result _ m₁ rfl small v rfl
      exact (left.push live).mono (fun _ _ kept => kept) fun _ _ fails => fails.mono .inr

/-! ### Entering functions -/

theorem pushLocals (guarded : m.Guarded floor) (decls : List VariableDecl) :
  Ends (fun _ m' => m'.Guarded floor) (Fails floor StackTooLarge) (Machine.pushLocals decls m)
  := by
  induction decls generalizing m with
  | nil => exact guarded
  | cons decl rest ih =>
    obtain ⟨sound, grows, live, -⟩ := guarded.secure.sound.defaultValue decl.ty
    have outcome : Outcome (fun (r : Value) h => r.Live h) False m
        (modifyHeap (Heap.defaultValue decl.ty) m) := .modifyHeap guarded.secure sound grows live
    have kept := outcome.secure
    unfold Machine.pushLocals
    rw [modifyHeap_eq] at kept
    rw [bind_of_ok (modifyHeap_eq _ m)]
    have made : (m.withHeap (m.heap.defaultValue decl.ty).2).Guarded floor :=
      guarded.grows grows kept rfl
    apply (made.push live).bind
    intro _ m₁ guarded₁
    exact ih guarded₁

/-- A function is entered with live arguments. -/
theorem enterFunction (guarded : m.Guarded floor) {index : Nat} {f : Function} (caller : Caller)
    (found : m.exe.functions[index]? = some f) (enough : f.params.length ≤ m.stack.sp) :
  Ends (fun _ m' => m'.Guarded floor) (Fails floor StackTooLarge)
    (Machine.enterFunction index f caller m)
  := by
  rw [enterFunction_eq enough]
  apply (guarded.reserve (Array.mem_of_getElem? found)).bind
  intro _ m₁ guarded₁
  apply (guarded₁.pushCall _).bind
  intro _ m₂ guarded₂
  apply (guarded₂.pushLocals _).bind
  intro _ m₃ guarded₃
  exact guarded₃.registers _

end Guarded

/-- All native functions that are bound leave the heap alone. -/
def Harmless (m : Machine) : Prop :=
  ∀ (index : Nat) native, (m.natives[index]?).join = some native → native.Benign

/-- A native function is called with live arguments. -/
theorem Guarded.callNative (guarded : m.Guarded floor) (harmless : m.Harmless) (linked : m.Linked)
    {index low : Nat} {f : Function} {args : List Value}
    (found : m.exe.functions[index]? = some f) (h : m.stack.Holds low args) (above : floor ≤ low)
    (count : args.length = f.params.length) :
  Ends (fun _ m' => m'.Guarded floor) (Fails floor StackTooLarge) (Machine.callNative index f m)
  := by
  cases bound : (m.natives[index]?).join with
  | none =>
    rw [callNative_of_none bound]
    exact ⟨guarded, nofun⟩
  | some native =>
    have arity : args.length = native.arity := by rw [linked _ _ _ bound found, count]
    have off : OffStack (some <$> onHost (native.run args)) := (OffStack.onHost _).map _
    have outcome : Outcome Outcome.YieldsLive False (m.lowered 0)
        ((some <$> onHost (native.run args)) (m.lowered 0)) :=
      ((harmless index native bound).outcome guarded.secure arity (guarded.live h)).yields
    rw [callNative_eq bound h arity]
    apply (guarded.operate off h above (by omega) outcome).mono (fun _ _ kept => kept)
    intro trap m₁ fails
    exact fails.mono fun cause => cause.resolve_left id

/-! ### Collections -/

section

variable {m : Machine}

/-- A live value of a global or of a cell in use survives a collection. -/
theorem HasLive.reclaim (sound : m.heap.Sound) (live : m.HasLive v)
    (root : ∀ handle, v.handle? = some handle → handle ∈ m.roots) :
  (m.withHeap (m.heap.reclaim m.roots).2).HasLive v
  := by
  intro small handle refers
  have holds := live ((m.heap.small_reclaim m.roots).1 small) handle refers
  have same := sound.wellFormed.get?_reclaim_root (root handle refers) holds
  change ((m.heap.reclaim m.roots).2.get? handle).isSome
  rw [same]
  exact holds

theorem Secure.reclaim (secure : m.Secure) :
  (m.withHeap (m.heap.reclaim m.roots).2).Secure
  where
  sound := secure.sound.reclaim m.roots
  masks := (m.heap.reclaim_masks m.roots).trans secure.masks
  globals small k v found := by
    have live : m.HasLive v := fun small => secure.globals small k v found
    apply live.reclaim secure.sound _ small
    intro handle refers
    have listed : v ∈ m.globals.toList := (Array.mem_of_getElem? found).val
    exact List.mem_append_left _ (List.mem_filterMap.2 ⟨v, listed, refers⟩)

theorem Guarded.reclaim (guarded : m.Guarded floor) :
  (m.withHeap (m.heap.reclaim m.roots).2).Guarded floor
  where
  secure := guarded.secure.reclaim
  floor_le := guarded.floor_le
  fits := guarded.fits
  cells k v used found := by
    apply (guarded.cells k v used found).reclaim guarded.secure.sound
    intro handle refers
    exact List.mem_append_right _ (Stack.mem_roots used found refers)

theorem Guarded.withThreshold (guarded : m.Guarded floor) (threshold : Nat) :
  (m.withHeap { m.heap with threshold }).Guarded floor
  := ⟨⟨guarded.secure.sound.withThreshold threshold, guarded.secure.masks, guarded.secure.globals⟩,
    guarded.floor_le, guarded.fits, guarded.cells⟩

/-- The threshold cannot be raised any more. -/
def ThresholdTooLarge (m : Machine) : Prop := 2 ^ 64 ≤ m.heap.threshold + m.heap.increment

/-- What a collection leaves: the machine with fewer objects, none of them new. -/
structure Thinned (m m' : Machine) : Prop where
  same : ∃ host, m' = { m with host }
  get? : ∀ handle o, m'.heap.get? handle = some o → m.heap.get? handle = some o

theorem Guarded.collect (guarded : m.Guarded floor) :
  Ends (fun _ m' => m'.Guarded floor ∧ m.Thinned m') (Fails floor fun _ => m.ThresholdTooLarge)
    (Machine.collect m)
  := by
  rw [collect_eq]
  split
  · refine ⟨guarded.reclaim.withThreshold _, ⟨_, rfl⟩, ?_⟩
    intro handle o found
    exact guarded.secure.sound.get?_of_reclaim found
  · next large => exact ⟨guarded.reclaim, fun _ _ => Nat.not_lt.1 large⟩

theorem Guarded.collectIfDue (guarded : m.Guarded floor) :
  Ends (fun _ m' => m'.Guarded floor ∧ m.Thinned m') (Fails floor fun _ => m.ThresholdTooLarge)
    (Machine.collectIfDue m)
  := by
  rw [collectIfDue_eq]
  split
  · exact guarded.collect.bind fun _ _ kept => kept
  · exact ⟨guarded, ⟨_, rfl⟩, fun _ _ found => found⟩

end

/-! ### Instructions -/

section

variable {m : Machine} {p : Program} {entry : Nat} {point : Point} {vs : List Value}
  {i : Instruction}

/-- What has to be wrong if an instruction crashes: a plain one goes beyond a table, a call is of
a function that does not exist, or the stack needs too large an array. -/
def CrashCause (i : Instruction) (m m' : Machine) : Prop :=
  (∃ us ws, m.stack.Holds m.operandBase (us ++ ws) ∧ ws.length = i.reads ∧ i.OutOfRange ws m)
    ∨ (i.op = .invoke ∧ ∃ v, m.stack.cells[m.stack.sp - 1]? = some (.value v)
        ∧ m.exe.functions[v.bits.toNat]? = none)
    ∨ m'.StackTooLarge

/-- Frames lie above the place where the run was entered. -/
theorem Framed.entry_le_operandBase (framed : m.Framed p entry) :
  entry ≤ m.operandBase
  := Nat.le_trans framed.backed.entry_le (Nat.le_add_right _ _)

section

variable (guarded : m.Guarded entry) (framed : m.Framed p entry)
include guarded framed

theorem Guarded.plain (here : m.At p point vs i) (reads : i.reads = point.takes)
    (plain : i.op.isPlain)
    (fits : ∀ us ws, m.stack.Holds m.operandBase (us ++ ws) → ws.length = i.reads → i.StoreFits ws m) :
  Ends (fun _ m' => m'.Guarded entry) (Fails entry (CrashCause i m)) (execute i (m.advanced i))
  := by
  obtain ⟨us, ws, rfl, lower, upper⟩ := here.split
  have count : ws.length = i.reads := by rw [upper, reads]
  have top : (m.advanced i).stack.Holds (m.operandBase + us.length) ws := here.holds.upper
  have above := framed.entry_le_operandBase
  let start := (m.advanced i).lowered i.early
  have advanced : (m.advanced i).Guarded entry := guarded.registers _
  have outcome : Outcome Outcome.YieldsLive (i.OutOfRange ws start) start (i.compute ws start) :=
    Instruction.outcome_compute (m := start)
      ⟨guarded.secure.sound, guarded.secure.masks, guarded.secure.globals⟩ (guarded.live top)
      (fits us ws here.holds count)
  rw [execute_eq_operate plain top count, ← count]
  refine ((advanced.operate (i.offStack_compute ws) top (by omega) ?_ outcome).mono
    (fun _ _ kept => kept) ?_).bind fun _ _ kept => kept
  · rw [count]
    apply i.drops_le_reads
  · intro trap m₁ fails
    apply fails.mono
    rintro (missing | large)
    · exact .inl ⟨us, ws, here.holds, count, missing⟩
    · exact .inr (.inr large)

theorem Guarded.pushStack (here : m.At p point vs i) (compiled : CompiledFrom p m.exe)
    (inRange : p.SlotsInRange) {kind : SlotKind} (load : i.op = .pushStack kind) :
  Ends (fun _ m' => m'.Guarded entry) (Fails entry (CrashCause i m)) (execute i (m.advanced i))
  := by
  obtain ⟨v, inside, found, executed⟩ := here.execute_load framed compiled inRange load
  have le := here.holds.le_sp
  have advanced : (m.advanced i).Guarded entry := guarded.registers _
  have live : m.HasLive v := guarded.cells _ v (by omega) found
  rw [executed]
  refine ((advanced.push live).mono (fun _ _ kept => kept) ?_).bind fun _ _ kept => kept
  intro trap m₁ fails
  exact fails.mono fun large => .inr (.inr large)

theorem Guarded.popStack (here : m.At p point vs i) (compiled : CompiledFrom p m.exe)
    (inRange : p.SlotsInRange) {kind : SlotKind} (store : i.op = .popStack kind) :
  Ends (fun _ m' => m'.Guarded entry) (Fails entry (CrashCause i m)) (execute i (m.advanced i))
  := by
  obtain ⟨us, v, rfl, -, -, -, executed⟩ := here.execute_store framed compiled inRange store
  have above := framed.entry_le_operandBase
  have sp := here.holds.sp_eq
  rw [List.length_append, List.length_singleton] at sp
  rw [executed]
  apply (guarded.registers (m.advanced i).registers).withCell (guarded.live here.holds v (by simp))
  · change entry ≤ m.stack.sp - 1
    omega
  · exact Nat.sub_le _ _

theorem Guarded.jumpIf (here : m.At p point vs i) (truth : Bool)
    (jump : i.op = if truth then .jumpIfTrue else .jumpIfFalse) :
  Ends (fun _ m' => m'.Guarded entry) (Fails entry (CrashCause i m)) (execute i (m.advanced i))
  := by
  obtain ⟨us, v, rfl, -, -, executed⟩ := here.execute_condition jump
  have above := framed.entry_le_operandBase
  have sp := here.holds.sp_eq
  rw [List.length_append, List.length_singleton] at sp
  have left : ((m.advanced i).lowered 1).Guarded entry :=
    (guarded.registers (m.advanced i).registers).lowered 1 (by change entry + 1 ≤ m.stack.sp; omega)
  rw [executed]
  split
  · exact left.registers _
  · exact left

/-- A return leaves the value in the place of the frame. -/
theorem Guarded.ret (here : m.At p point vs i) (compiled : CompiledFrom p m.exe)
    (returns : i.op = .ret) :
  Ends (fun _ m' => m'.Guarded entry) (Fails entry (CrashCause i m)) (execute i (m.advanced i))
  := by
  obtain ⟨index, f, info, running, found, frame, size⟩ := here.exists_frame framed compiled returns
  have above := framed.backed.entry_le
  obtain ⟨v, listed, ran⟩ := here.execute_ret returns running found frame
  have le := here.holds.le_sp
  have record : 0 < f.frameSize := by
    unfold Function.frameSize Frame.recordSize
    omega
  have live := guarded.live here.holds v listed
  have stored : ({ m with stack := { m.stack with
      cells := m.stack.cells.setIfInBounds m.registers.base (.value v)
      sp := m.registers.base + 1 } } : Machine).Guarded entry :=
    guarded.withCell live (by omega) (by omega)
  rw [ran]
  exact stored.registers _

/-- A call of a function that has as many parameters as there are arguments. -/
theorem Guarded.invoke (harmless : m.Harmless) (here : m.At p point vs i) (call : i.op = .invoke)
    (fits : m.ArityFits point.args) :
  Ends (fun _ m' => m'.Guarded entry) (Fails entry (CrashCause i m)) (execute i (m.advanced i))
  := by
  obtain ⟨us, args, v, rfl, count, depth, top⟩ := here.call_operands call
  let site := (m.advanced i).atPc i.pc
  let start := site.lowered 1
  have held : site.stack.Holds m.operandBase (us ++ args ++ [v]) := here.holds
  have left : start.stack.Holds m.operandBase (us ++ args) := held.lowered
  have above := framed.entry_le_operandBase
  have sp := here.holds.sp_eq
  rw [List.length_append, List.length_append, List.length_singleton] at sp
  have guarded' : start.Guarded entry :=
    (guarded.registers site.registers).lowered 1 (by change entry + 1 ≤ m.stack.sp; omega)
  have large {m' : Machine} {trap : Trap} (fails : m'.Fails entry StackTooLarge trap) :
      m'.Fails entry (CrashCause i m) trap := fails.mono fun large => .inr (.inr large)
  rw [execute_invoke call]
  refine Ends.bind (Q := fun _ m' => m'.Guarded entry) ?_ fun _ _ kept => kept
  cases found : m.exe.functions[v.bits.toNat]? with
  | none =>
    rw [invoke_of_none held found]
    exact ⟨guarded', fun _ _ => .inr (.inl ⟨call, v, top, found⟩)⟩
  | some f =>
    have params := fits v f top found
    rw [invoke_eq held found]
    split
    · have called := guarded'.callNative (f := f) harmless framed.linked found left.upper
        (by omega) (by omega)
      refine (called.mono (fun _ _ kept => kept) fun _ _ => large).bind ?_
      intro _ m₁ guarded₁
      exact guarded₁.registers _
    · have entered := guarded'.enterFunction (callerOf site.registers.current) found
        (by change _ ≤ m.stack.sp - 1; omega)
      exact entered.mono (fun _ _ kept => kept) fun _ _ => large

/-- An instruction leaves no dangling handle, whatever comes of it. -/
theorem Guarded.execute (harmless : m.Harmless) (here : m.At p point vs i)
    (compiled : CompiledFrom p m.exe) (inRange : p.SlotsInRange)
    (calls : i.op = .invoke → m.ArityFits point.args)
    (stores : ∀ us ws, m.stack.Holds m.operandBase (us ++ ws) → ws.length = i.reads → i.StoreFits ws m) :
  Ends (fun _ m' => m'.Guarded entry) (Fails entry (CrashCause i m))
    (Machine.execute i (m.advanced i))
  := by
  have proper := compiled.proper inRange here.listed
  have plain (plainOp : i.op.isPlain) :=
    guarded.plain framed here (here.reads_eq proper plainOp) plainOp stores
  cases op : i.op with
  | pushStack kind => apply guarded.pushStack framed here compiled inRange op
  | popStack kind => apply guarded.popStack framed here compiled inRange op
  | jump =>
    rw [execute_jump op]
    exact guarded.registers _
  | jumpIfTrue => apply guarded.jumpIf framed here true op
  | jumpIfFalse => apply guarded.jumpIf framed here false op
  | invoke => apply guarded.invoke framed harmless here op (calls op)
  | ret => apply guarded.ret framed here compiled op
  | _ => exact plain (by rw [op]; rfl)

end

end

/-! ### Steps -/

section

variable {m : Machine} {p : Program} {entry : Nat}

namespace Thinned

variable {i : Instruction} {ws : List Value}

theorem isInstance (thinned : m.Thinned m') {class_ : UInt16} {fields : Array Value}
    (found : IsInstance v class_ fields m') :
  IsInstance v class_ fields m
  := by
  obtain ⟨handle, refers, there⟩ := found
  exact ⟨handle, refers, thinned.get? handle _ there⟩

theorem fieldFits (thinned : m.Thinned m') {w : Value} {index : Nat}
    (fits : FieldFits v w index m) :
  FieldFits v w index m'
  := by
  intro class_ fields c decl found
  have before := thinned.isInstance found
  obtain ⟨host, rfl⟩ := thinned.same
  exact fits class_ fields c decl before

/-- What an instruction does not find after a collection it would not have found before. -/
theorem outOfRange (thinned : m.Thinned m') (missing : i.OutOfRange ws m') :
  i.OutOfRange ws m
  := by
  have before {v : Value} {class_ : UInt16} {fields : Array Value}
      (found : IsInstance v class_ fields m') := thinned.isInstance found
  obtain ⟨host, rfl⟩ := thinned.same
  obtain ⟨pc, op, operand⟩ := i
  cases op with
  | pushField kind | popField kind =>
    obtain ⟨class_, fields, found, outside⟩ := missing
    exact ⟨class_, fields, before found, outside⟩
  | pushMethod =>
    obtain ⟨class_, fields, found, lacks⟩ := missing
    exact ⟨class_, fields, before found, lacks⟩
  | _ => exact missing

theorem crashCause (thinned : m.Thinned m') {m₁ : Machine} (cause : CrashCause i m' m₁) :
  CrashCause i m m₁
  := by
  rcases cause with ⟨us, ws, holds, count, missing⟩ | elsewhere
  · have before := thinned.outOfRange missing
    obtain ⟨host, rfl⟩ := thinned.same
    exact .inl ⟨us, ws, holds, count, before⟩
  · obtain ⟨host, rfl⟩ := thinned.same
    exact .inr elsewhere

end Thinned

/-- The store to a field before the machine, if there is one, puts a reference only into a field
that is declared to hold one. -/
def StoreFits (m : Machine) : Prop :=
  ∀ i kind target v, fetch m.code m.registers.pc = .ok i → i.op = .popField kind →
    m.stack.cells[m.stack.sp - 1]? = some (.value target) →
    m.stack.cells[m.stack.sp - 2]? = some (.value v) → FieldFits target v i.number m

theorem StoreFits.of_holds (fits : m.StoreFits) {i : Instruction}
    (fetched : fetch m.code m.registers.pc = .ok i) {low : Nat} {us ws : List Value}
    (holds : m.stack.Holds low (us ++ ws)) (count : ws.length = i.reads) :
  i.StoreFits ws m
  := by
  intro kind store
  have two : ws.length = 2 := by rw [count, Instruction.reads, store]; rfl
  obtain ⟨v, target, rfl⟩ := List.length_eq_two.1 two
  have sp := holds.upper.sp_eq
  apply fits i kind target v fetched store
  · rw [sp]
    apply holds.upper.cell 1 target rfl
  · rw [sp]
    apply holds.upper.cell 0 v rfl

/-- What has to be wrong if a step crashes. -/
def StepCrash (m m' : Machine) : Prop :=
  m.ThresholdTooLarge ∨ ∃ i, fetch m.code m.registers.pc = .ok i ∧ CrashCause i m m'

/-- The machine runs compiled code with frames in order and without dangling handles, and what is
bound to native functions leaves the heap alone. -/
structure Sheltered (p : Program) (entry : Nat) (m : Machine) : Prop where
  compiled : CompiledFrom p m.exe
  harmless : m.Harmless
  framed : m.Framed p entry
  guarded : m.Guarded entry

/-- A step leaves no dangling handle, whatever comes of it. -/
theorem Sheltered.step (sheltered : m.Sheltered p entry) (inRange : p.SlotsInRange)
    (calls : m.CallFits p) (stores : m.StoreFits) :
  Ends (fun next m' => m'.Guarded entry ∧ (next = .running → m'.Sheltered p entry))
    (Fails entry (StepCrash m)) (step m)
  := by
  obtain ⟨compiled, harmless, framed, guarded⟩ := sheltered
  suffices kept : Ends (fun _ m' => m'.Guarded entry) (Fails entry (StepCrash m))
      (Machine.step m) by
    have program := SameProgram.law.step m
    cases ran : Machine.step m with
    | error trap m' =>
      rw [ran] at kept
      exact kept
    | ok next m' =>
      rw [ran] at kept program
      refine ⟨kept, ?_⟩
      rintro rfl
      have exe : m'.exe = m.exe := program.exe
      have natives : m'.natives = m.natives := program.natives
      refine ⟨exe ▸ compiled, ?_, framed.step compiled inRange calls ran, kept⟩
      unfold Harmless
      rw [natives]
      exact harmless
  have due := guarded.collectIfDue
  rw [step_eq]
  cases collected : Machine.collectIfDue m with
  | error trap m₁ =>
    rw [collected] at due
    exact ⟨due.1, fun crashed small => .inl (due.2 crashed small)⟩
  | ok _ m₁ =>
    rw [collected] at due
    obtain ⟨guarded₁, thinned⟩ := due
    obtain ⟨host, rfl⟩ := thinned.same
    dsimp only
    split
    · exact guarded₁
    · split
      · exact ⟨guarded₁, nofun⟩
      · next i fetched =>
          obtain ⟨point, vs, here, pc⟩ := framed.at_fetched compiled fetched
          have executed := guarded₁.execute (framed.hosted host) harmless (here.hosted host)
            compiled inRange
            (fun call => calls point here.listed pc (here.op ▸ call))
            (fun us ws holds count kind store =>
              thinned.fieldFits (stores.of_holds fetched holds count kind store))
          split
          · next ran =>
              rw [ran] at executed
              apply Fails.mono executed
              intro cause
              exact .inr ⟨i, fetched, thinned.crashCause cause⟩
          all_goals
            next ran =>
              rw [ran] at executed
              exact executed

end

end Machine

end Bytecode
