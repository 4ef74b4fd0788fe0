import Mathlib
import Bytecode.Machine.Run
import Bytecode.Proofs.Generate.Piece
import Bytecode.Proofs.Machine.Stack

/-!
# Instructions on operands

Most instructions compute from the operands on top of the stack, without a further look at the
stack, what they push in their place. `Instruction.compute` is that computation, and
`Machine.execute_eq_operate` says that executing such a plain instruction amounts to reading the
operands, computing, dropping operands and pushing the result. What holds of an instruction then
follows from what holds of its computation.
-/

namespace Bytecode

open Machine

namespace Machine

variable {α : Type}

theorem onStack_eq (action : StackM α) (m : Machine) :
  onStack action m = match action m.stack with
    | .ok a stack => .ok a { m with stack }
    | .error trap stack => .error trap { m with stack }
  := by
  cases m
  rfl

theorem onHost_eq (action : EStateM Trap Host α) (m : Machine) :
  onHost action m = match action m.host with
    | .ok a host => .ok a { m with host }
    | .error trap host => .error trap { m with host }
  := by
  cases m
  rfl

theorem onStack_of_ok {action : StackM α} {m : Machine} {a : α} {s : Stack}
    (run : action m.stack = .ok a s) :
  onStack action m = .ok a { m with stack := s }
  := by
  rw [onStack_eq, run]

theorem onStack_of_error {action : StackM α} {m : Machine} {trap : Trap} {s : Stack}
    (run : action m.stack = .error trap s) :
  onStack action m = .error trap { m with stack := s }
  := by
  rw [onStack_eq, run]

theorem stateOf_onStack (action : StackM α) (m : Machine) :
  stateOf (onStack action m) = { m with stack := stateOf (action m.stack) }
  := by
  rw [onStack_eq]
  cases action m.stack with
  | ok a s => rfl
  | error trap s => rfl

end Machine

/-! ### Actions off the stack -/

/-- An action that has nothing to do with the stack, nor with where the machine is. -/
structure OffStack {α : Type} (x : MachineM α) : Prop where
  commutes : ∀ (m : Machine) (s : Stack),
    x { m with stack := s } = onState (fun m' => { m' with stack := s }) (x m)
  exe : ∀ m, (stateOf (x m)).exe = m.exe
  natives : ∀ m, (stateOf (x m)).natives = m.natives
  registers : ∀ m, (stateOf (x m)).registers = m.registers

namespace OffStack

variable {α β : Type}
variable {x : MachineM α}

theorem stack (off : OffStack x) (m : Machine) :
  (stateOf (x m)).stack = m.stack
  := by
  have same := off.commutes m m.stack
  change x m = _ at same
  rw [same]
  cases x m with
  | ok a m' => rfl
  | error trap m' => rfl

theorem pure (a : α) :
  OffStack (Pure.pure a : MachineM α)
  where
  commutes _ _ := rfl
  exe _ := rfl
  natives _ := rfl
  registers _ := rfl

theorem throw (trap : Trap) :
  OffStack (MonadExcept.throw trap : MachineM α)
  where
  commutes _ _ := rfl
  exe _ := rfl
  natives _ := rfl
  registers _ := rfl

theorem bind {f : α → MachineM β} (first : OffStack x) (second : ∀ a, OffStack (f a)) :
  OffStack (x >>= f)
  where
  commutes m s := by
    apply bind_onState (g := fun m' : Machine => { m' with stack := s }) (first.commutes m s)
    intro a m₁ _
    exact (second a).commutes m₁ s
  exe m := stateOf_bind_congr Machine.exe (first.exe m) fun a => (second a).exe
  natives m := stateOf_bind_congr Machine.natives (first.natives m) fun a => (second a).natives
  registers m := stateOf_bind_congr Machine.registers (first.registers m) fun a => (second a).registers

theorem map (off : OffStack x) (f : α → β) :
  OffStack (f <$> x)
  := by
  rw [map_eq_pure_bind]
  exact off.bind fun a => .pure (f a)

/-- What is looked up in the machine besides its stack. -/
theorem get_bind {f : Machine → MachineM β} (same : ∀ m s, f { m with stack := s } = f m)
    (each : ∀ m, OffStack (f m)) :
  OffStack (get >>= f)
  where
  commutes m s := by
    change f { m with stack := s } { m with stack := s } = _
    rw [same]
    exact (each m).commutes m s
  exe m := (each m).exe m
  natives m := (each m).natives m
  registers m := (each m).registers m

theorem onHost (action : EStateM Trap Host α) :
  OffStack (Machine.onHost action)
  := by
  constructor
  · intro m s
    rw [onHost_eq, onHost_eq]
    cases action m.host with
    | ok a host => rfl
    | error trap host => rfl
  all_goals
    intro m
    rw [onHost_eq]
    cases action m.host with
    | ok a host => rfl
    | error trap host => rfl

theorem modifyHeap (f : Heap → α × Heap) :
  OffStack (Machine.modifyHeap f)
  := by
  unfold Machine.modifyHeap onHeap
  exact .onHost _

end OffStack

/-! ### Looking things up -/

/-- The fault is due to what a program does with its values. -/
def Fault.isOrdinary : Fault → Bool
  | .indexOutOfBounds _ _ | .divisionByZero | .nullPointer | .classCast _ _ | .typeMismatch _ _ =>
    true
  | _ => false

/-- The action changes nothing, whether it yields something or fails. -/
def Reads {α : Type} (x : MachineM α) : Prop :=
  ∀ m, stateOf (x m) = m

namespace Reads

variable {α β : Type}

theorem pure (a : α) :
  Reads (Pure.pure a : MachineM α)
  := fun _ => rfl

theorem throw (trap : Trap) :
  Reads (MonadExcept.throw trap : MachineM α)
  := fun _ => rfl

theorem bind {x : MachineM α} {f : α → MachineM β} (first : Reads x) (second : ∀ a, Reads (f a)) :
  Reads (x >>= f)
  := fun m => stateOf_bind_congr id (first m) second

theorem get_bind {f : Machine → MachineM β} (each : ∀ m, Reads (f m)) :
  Reads (get >>= f)
  := fun m => each m m

end Reads

/-- An action that only looks at what is off the stack, and fails because of values only. -/
structure Looks {α : Type} (x : MachineM α) : Prop where
  offStack : OffStack x
  reads : Reads x
  faults : ∀ m f m', x m = .error (.error f) m' → f.isOrdinary

namespace Looks

variable {α β : Type} {x : MachineM α}

theorem pure (a : α) :
  Looks (Pure.pure a : MachineM α)
  := ⟨.pure a, .pure a, nofun⟩

theorem crash :
  Looks (Machine.crash : MachineM α)
  := ⟨.throw _, .throw _, nofun⟩

theorem fault {f : Fault} (ordinary : f.isOrdinary) :
  Looks (Machine.fault f : MachineM α)
  := by
  refine ⟨.throw _, .throw _, ?_⟩
  intro m f' m' raised
  cases raised
  exact ordinary

theorem bind {f : α → MachineM β} (first : Looks x) (second : ∀ a, Looks (f a)) :
  Looks (x >>= f)
  := by
  refine ⟨first.offStack.bind fun a => (second a).offStack,
    first.reads.bind fun a => (second a).reads, ?_⟩
  intro m fault m' raised
  rcases bind_eq_error.1 raised with failed | ⟨a, m₁, -, failed⟩
  · exact first.faults m fault m' failed
  · exact (second a).faults m₁ fault m' failed

theorem get_bind {f : Machine → MachineM β} (same : ∀ m s, f { m with stack := s } = f m)
    (each : ∀ m, Looks (f m)) :
  Looks (get >>= f)
  := ⟨.get_bind same fun m => (each m).offStack, .get_bind fun m => (each m).reads,
    fun m => (each m).faults m⟩

theorem of_lookup (read : Machine → Except Trap α)
    (eq : ∀ m, x m = match read m with
      | .ok a => .ok a m
      | .error trap => .error trap m)
    (same : ∀ m s, read { m with stack := s } = read m)
    (ordinary : ∀ m f, read m = .error (.error f) → f.isOrdinary) :
  Looks x
  := by
  have reads : Reads x := by
    intro m
    rw [eq]
    cases read m with
    | ok a => rfl
    | error trap => rfl
  refine ⟨⟨?_, fun m => by rw [reads], fun m => by rw [reads], fun m => by rw [reads]⟩, reads, ?_⟩
  · intro m s
    rw [eq, eq, same]
    cases read m with
    | ok a => rfl
    | error trap => rfl
  · intro m f m' raised
    rw [eq] at raised
    split at raised
    · cases raised
    · next failed =>
        cases raised
        exact ordinary m f failed

end Looks

theorem looks_object (v : Value) :
  Looks (object v)
  := by
  apply Looks.of_lookup fun m => v.handle?.elim (.error (.error .nullPointer)) fun handle =>
    (m.heap.get? handle).elim (.error .crash) .ok
  · intro m
    unfold object
    cases v.handle? with
    | none => rfl
    | some handle =>
      dsimp only [Option.elim_some]
      cases m.heap.get? handle with
      | none => rfl
      | some o => rfl
  · exact fun _ _ => rfl
  · intro m f failed
    cases named : v.handle? with
    | none =>
      rw [named] at failed
      cases failed
      rfl
    | some handle =>
      rw [named, Option.elim_some] at failed
      cases found : m.heap.get? handle with
      | none =>
        rw [found] at failed
        cases failed
      | some o =>
        rw [found] at failed
        cases failed

theorem looks_text? (v : Value) :
  Looks (text? v)
  := by
  apply Looks.of_lookup fun m => m.host.text? v
  · intro m
    unfold text?
    cases m.host.text? v with
    | ok text => rfl
    | error trap => rfl
  · exact fun _ _ => rfl
  · intro m f failed
    unfold Host.text? at failed
    split at failed
    · cases failed
    · split at failed
      all_goals cases failed

theorem looks_getGlobal (index : Nat) :
  Looks (getGlobal index)
  := by
  apply Looks.of_lookup fun m => (m.globals[index]?).elim (.error .crash) .ok
  · intro m
    unfold getGlobal
    cases m.globals[index]? with
    | none => rfl
    | some v => rfl
  · exact fun _ _ => rfl
  · intro m f failed
    cases found : m.globals[index]? with
    | none | some v =>
      rw [found] at failed
      cases failed

theorem looks_expectString (v : Value) :
  Looks (expectString v)
  := by
  apply (looks_object v).bind
  intro o
  cases o with
  | string text => exact .pure text
  | _ => exact .fault rfl

theorem looks_textOrNull (v : Value) :
  Looks (textOrNull v)
  := (looks_text? v).bind fun _ => .pure _

theorem looks_sameString (lhs rhs : Value) :
  Looks (sameString lhs rhs)
  := by
  unfold sameString
  split
  · exact .pure _
  · exact (looks_text? lhs).bind fun _ => (looks_text? rhs).bind fun _ => .pure _
  · exact .pure _

theorem looks_checkIndex (index : Int64) (size : Nat) :
  Looks (checkIndex index size)
  := by
  unfold checkIndex
  split
  · exact .pure _
  · exact .fault rfl

theorem looks_arrayGet (array : Value) (index : Int64) :
  Looks (arrayGet array index)
  := by
  apply (looks_object array).bind
  intro o
  apply (looks_checkIndex index _).bind
  intro i
  cases o.element? i with
  | none => exact .crash
  | some v => exact .pure v

theorem looks_arrayLength (v : Value) :
  Looks (arrayLength v)
  := by
  apply (looks_object v).bind
  intro o
  cases o.arrayLength? with
  | none => exact .fault rfl
  | some n => exact .pure n

theorem looks_expectInstance (v : Value) :
  Looks (expectInstance v)
  := by
  apply (looks_object v).bind
  intro o
  cases o with
  | inst class_ fields => exact .pure _
  | _ => exact .fault rfl

theorem looks_getField (v : Value) (index : Nat) :
  Looks (getField v index)
  := by
  apply (looks_expectInstance v).bind
  rintro ⟨class_, fields⟩
  dsimp only
  cases fields[index]? with
  | none => exact .crash
  | some field => exact .pure field

theorem looks_methodFunction (v : Value) (index : Nat) :
  Looks (methodFunction v index)
  := by
  apply (looks_expectInstance v).bind
  rintro ⟨class_, fields⟩
  apply Looks.get_bind (fun _ _ => rfl)
  intro m
  cases (m.exe.classes[class_.toNat]?).bind fun c => c.methods[index]? with
  | none => exact .crash
  | some method => exact .pure _

theorem looks_downCast (v : Value) (target : UInt16) :
  Looks (downCast v target)
  := by
  unfold downCast
  split
  · exact .pure _
  · apply (looks_expectInstance v).bind
    rintro ⟨class_, fields⟩
    apply Looks.get_bind (fun _ _ => rfl)
    intro m
    dsimp only
    split
    · exact .fault rfl
    · exact .pure _

theorem looks_instanceOf (v : Value) (target : UInt16) :
  Looks (instanceOf v target)
  := by
  unfold instanceOf
  cases v.handle? with
  | none => exact .pure _
  | some _ =>
    apply (looks_object v).bind
    intro o
    cases o with
    | inst class_ fields => exact .get_bind (fun _ _ => rfl) fun _ => .pure _
    | _ => exact .pure _

theorem looks_arithInts (op : ArithOp) (lhs rhs : Value) :
  Looks (arithInts op lhs rhs)
  := by
  unfold arithInts
  cases result : op.onInts lhs.toInt rhs.toInt with
  | ok i => exact .pure _
  | error f =>
    apply Looks.fault
    cases op with
    | div | mod =>
      simp only [ArithOp.onInts] at result
      split at result
      all_goals cases result
      rfl
    | _ => cases result

theorem looks_compareStrings (op : Comparison) (lhs rhs : Value) :
  Looks (compareStrings op lhs rhs)
  := by
  cases op with
  | eq | ne => exact (looks_sameString lhs rhs).bind fun _ => .pure _
  | _ =>
    exact (looks_expectString lhs).bind fun _ => (looks_expectString rhs).bind fun _ => .pure _

/-! ### Objects -/

theorem offStack_setGlobal (index : Nat) (v : Value) :
  OffStack (setGlobal index v)
  := by
  constructor
  · intro m s
    simp only [setGlobal]
    split
    all_goals rfl
  all_goals
    intro m
    simp only [setGlobal]
    split
    all_goals rfl

theorem offStack_updateObject (v : Value) (f : Object → Object) :
  OffStack (updateObject v f)
  := by
  unfold updateObject
  cases v.handle? with
  | none => exact .throw _
  | some handle => exact .modifyHeap _

theorem offStack_allocate (o : Object) :
  OffStack (allocate o)
  := .modifyHeap _

theorem offStack_newString (text : String) :
  OffStack (newString text)
  := .modifyHeap _

theorem offStack_arraySet (array : Value) (index : Int64) (v : Value) :
  OffStack (arraySet array index v)
  := by
  apply (looks_object array).offStack.bind
  intro o
  apply (looks_checkIndex index _).offStack.bind
  intro i
  exact offStack_updateObject _ _

theorem offStack_newArray (kind : SlotKind) (size : Int64) :
  OffStack (newArray kind size)
  := by
  unfold newArray
  split
  · exact .throw _
  · split
    · exact .throw _
    · exact offStack_allocate _

theorem offStack_newInstance (index : Nat) :
  OffStack (newInstance index)
  := by
  apply OffStack.get_bind (fun _ _ => rfl)
  intro m
  cases m.exe.classes[index]? with
  | none => exact .throw _
  | some c => exact .modifyHeap _

theorem offStack_setField (object : Value) (index : Nat) (v : Value) :
  OffStack (setField object index v)
  := by
  apply (looks_expectInstance object).offStack.bind
  intro found
  dsimp only
  split
  · exact offStack_updateObject _ _
  · exact .throw _

theorem offStack_convert (conversion : Conversion) (v : Value) :
  OffStack (convert conversion v)
  := by
  cases conversion with
  | intToDouble | doubleToInt => exact .pure _
  | _ => exact offStack_newString _

/-! ### Plain instructions -/

/-- The instruction neither goes elsewhere nor addresses the frame. -/
def Op.isPlain (op : Op) : Bool := !op.isJump && !op.isFramed && op != .invoke

namespace Instruction

/-- The number that the operand stands for. -/
def number (i : Instruction) : Nat := (i.operand.getD 0).toNat

/-- The operands that a plain instruction reads. -/
def reads (i : Instruction) : Nat := i.op.takes i.number

/-- The operands that a plain instruction has dropped when it computes. -/
def early (i : Instruction) : Nat :=
  match i.op with
  | .arithInt _ | .arithDouble _ | .compareInt _ | .compareDouble _ | .compareString _
  | .popStatic _ | .pushField _ | .newArray _ | .pop => 1
  | .pushArray _ | .popField _ | .eqObject | .neObject => 2
  | .popArray _ => 3
  | _ => 0

/-- The operands that a plain instruction drops when it has computed. -/
def late (i : Instruction) : Nat :=
  match i.op with
  | .arithInt _ | .arithDouble _ | .compareInt _ | .compareDouble _ | .compareString _
  | .minusInt | .minusDouble | .cast _ | .logicalNot | .arraySize | .stringLength
  | .instanceOf => 1
  | .addString => 2
  | .newArrayLiteral _ => i.number
  | _ => 0

/-- What a plain instruction does with its operands, the lowest first, and the value that it
pushes. -/
def compute (i : Instruction) (vs : List Value) : MachineM (Option Value) :=
  let first := vs.getD 0 .zero
  let second := vs.getD 1 .zero
  let third := vs.getD 2 .zero
  match i.op with
  | .pushInt1Byte | .pushFunction => pure (some (.ofNat i.number))
  | .pushInt2Byte => pure (some (.ofInt (i.operand.getD 0).toInt16.toInt64))
  | .pushInt => some <$> literal i.number literalInt?
  | .pushDouble0 => pure (some (.ofDouble .zero))
  | .pushDouble1 => pure (some (.ofDouble .one))
  | .pushDouble => some <$> literal i.number literalDouble?
  | .pushString => some <$> literal i.number literalString?
  | .pushNull => pure (some .null)
  | .pushStatic _ => some <$> getGlobal i.number
  | .popStatic _ => (fun _ => none) <$> setGlobal i.number first
  | .pushArray _ => some <$> arrayGet first second.toInt
  | .popArray _ => (fun _ => none) <$> arraySet second third.toInt first
  | .pushField _ => some <$> getField first i.number
  | .popField _ => (fun _ => none) <$> setField second i.number first
  | .arithInt op => some <$> arithInts op first second
  | .arithDouble op => pure (some (.ofDouble (op.onDoubles first.toDouble second.toDouble)))
  | .addString => do
    return some (← newString ((← textOrNull first) ++ (← textOrNull second)))
  | .minusInt => pure (some (.ofInt (-first.toInt)))
  | .minusDouble => pure (some (.ofDouble first.toDouble.neg))
  | .cast conversion => some <$> convert conversion first
  | .compareInt op => pure (some (.ofBool (op.onInts first.toInt second.toInt)))
  | .compareDouble op => pure (some (.ofBool (op.onDoubles first.toDouble second.toDouble)))
  | .compareString op => some <$> compareStrings op first second
  | .eqObject => pure (some (.ofBool ((first.handle? == second.handle?) == true)))
  | .neObject => pure (some (.ofBool ((first.handle? == second.handle?) == false)))
  | .logicalNot => pure (some (.ofBool (!first.toBool)))
  | .duplicate => pure (some first)
  | .pushMethod => (fun function => some (.ofNat function.toNat)) <$> methodFunction first i.number
  | .new => some <$> newInstance i.number
  | .newArray kind => some <$> newArray kind first.toInt
  | .newArrayLiteral kind => some <$> allocate (arrayOfValues kind vs)
  | .arraySize => some <$> do return .ofNat (← arrayLength first)
  | .stringLength => some <$> do return .ofNat (← expectString first).length
  | .downCast => (fun _ => none) <$> downCast first (i.operand.getD 0)
  | .instanceOf => some <$> do return .ofBool (← instanceOf first (i.operand.getD 0))
  | _ => pure none
where
  /-- A constant of the pool. -/
  literal (index : Nat) (select : Constant → Option (MachineM Value)) : MachineM Value := do
    match ((← get).exe.constants[index]?).bind select with
    | some value => value
    | none => fault (.decode (.badConstant index))

/-- The ways of selecting the constant that an instruction pushes. -/
inductive Selection : (Constant → Option (MachineM Value)) → Prop
  | int : Selection literalInt?
  | double : Selection literalDouble?
  | string : Selection literalString?

/-- A constant that is selected is yielded, or a string made of it. -/
theorem Selection.each {select : Constant → Option (MachineM Value)} (selection : Selection select)
    {P : MachineM Value → Prop} (word : ∀ v, v.handle? = none → P (pure v))
    (string : ∀ text, P (newString text)) {found : Option Constant} {x : MachineM Value}
    (selected : found.bind select = some x) :
  P x
  := by
  obtain ⟨c, -, chosen⟩ := Option.bind_eq_some_iff.1 selected
  cases selection
  all_goals
    cases c
    all_goals cases chosen
  · exact word _ rfl
  · exact word _ rfl
  · exact string _

theorem offStack_literal {select : Constant → Option (MachineM Value)}
    (selection : Selection select) (index : Nat) :
  OffStack (compute.literal index select)
  := by
  apply OffStack.get_bind (fun _ _ => rfl)
  intro m
  cases found : (m.exe.constants[index]?).bind select with
  | none => exact .throw _
  | some x => exact selection.each (fun v _ => .pure v) offStack_newString found

theorem offStack_compute (i : Instruction) (vs : List Value) :
  OffStack (i.compute vs)
  := by
  obtain ⟨pc, op, operand⟩ := i
  cases op with
  | pushInt => exact (offStack_literal .int _).map _
  | pushDouble => exact (offStack_literal .double _).map _
  | pushString => exact (offStack_literal .string _).map _
  | pushStatic kind => exact (looks_getGlobal _).offStack.map _
  | popStatic kind => exact (offStack_setGlobal _ _).map _
  | pushArray kind => exact (looks_arrayGet _ _).offStack.map _
  | popArray kind => exact (offStack_arraySet _ _ _).map _
  | pushField kind => exact (looks_getField _ _).offStack.map _
  | popField kind => exact (offStack_setField _ _ _).map _
  | arithInt op => exact (looks_arithInts _ _ _).offStack.map _
  | addString =>
    exact (looks_textOrNull _).offStack.bind fun _ => (looks_textOrNull _).offStack.bind fun _ =>
      (offStack_newString _).bind fun _ => .pure _
  | cast conversion => exact (offStack_convert _ _).map _
  | compareString op => exact (looks_compareStrings _ _ _).offStack.map _
  | pushMethod => exact (looks_methodFunction _ _).offStack.map _
  | new => exact (offStack_newInstance _).map _
  | newArray kind => exact (offStack_newArray _ _).map _
  | newArrayLiteral kind => exact (offStack_allocate _).map _
  | arraySize => exact ((looks_arrayLength _).offStack.bind fun _ => .pure _).map _
  | stringLength => exact ((looks_expectString _).offStack.bind fun _ => .pure _).map _
  | downCast => exact (looks_downCast _ _).offStack.map _
  | instanceOf => exact ((looks_instanceOf _ _).offStack.bind fun _ => .pure _).map _
  | _ => exact .pure _

end Instruction

/-! ### Operating on operands -/

namespace Machine

variable {α : Type} {lhs rhs : Value} {m' : Machine} {q : Nat → Option Cell} {action : StackM α}

/-- Push a result, if there is one. -/
def pushResult : Option Value → MachineM Unit
  | some v => push v
  | none => pure ()

/-- Read operands, drop some of them, compute, drop others and push the result. -/
def operate (reads early late : Nat) (compute : List Value → MachineM (Option Value)) :
    MachineM Unit := do
  let vs ← onStack (Stack.top reads)
  onStack (Stack.shrink early)
  let result ← compute vs
  onStack (Stack.shrink late)
  pushResult result

/-- The machine with so many cells fewer in use. -/
def lowered (count : Nat) (m : Machine) : Machine := { m with stack := m.stack.lowered count }

theorem lowered_exe (count : Nat) (m : Machine) :
  (m.lowered count).exe = m.exe
  := rfl

theorem lowered_registers (count : Nat) (m : Machine) :
  (m.lowered count).registers = m.registers
  := rfl

variable {m : Machine} {low : Nat} {us vs : List Value} {v : Value}

theorem pop_eq (h : m.stack.Holds low (us ++ [v])) :
  pop m = .ok v (m.lowered 1)
  := onStack_of_ok h.pop

theorem peek_eq (h : m.stack.Holds low (us ++ v :: vs)) :
  peek vs.length m = .ok v m
  := onStack_of_ok h.peek

theorem top_eq (h : m.stack.Holds low vs) :
  onStack (Stack.top vs.length) m = .ok vs m
  := onStack_of_ok h.top

theorem shrink_eq {count : Nat} (enough : count ≤ m.stack.sp) :
  onStack (Stack.shrink count) m = .ok () (m.lowered count)
  := onStack_of_ok (Stack.shrink_eq enough)

theorem onStack_shrink_zero :
  onStack (Stack.shrink 0) = (pure () : MachineM Unit)
  := rfl

theorem replaceTop_eq (h : m.stack.Holds low (us ++ [v])) (w : Value) :
  replaceTop w m = (onStack (Stack.shrink 1) >>= fun _ => push w) m
  := by
  have sp := h.sp_eq
  rw [List.length_append, List.length_singleton] at sp
  rw [bind_of_ok (shrink_eq (by omega))]
  unfold replaceTop push
  rw [onStack_eq, onStack_eq, h.replace]
  rfl

/-- The operands are read, and some of them dropped. -/
theorem operate_eq {ws : List Value} (h : m.stack.Holds low (us ++ ws)) (late : Nat)
    (compute : List Value → MachineM (Option Value)) :
  operate (us ++ ws).length ws.length late compute m
    = (compute (us ++ ws) >>= fun result => onStack (Stack.shrink late) >>= fun _ =>
        pushResult result) (m.lowered ws.length)
  := by
  have sp := h.sp_eq
  rw [List.length_append] at sp
  unfold operate
  rw [bind_of_ok (top_eq h), bind_of_ok (shrink_eq (by omega))]

/-- A value that is made and pushed. -/
theorem push_eq_operate (fits : m.stack.sp ≤ m.stack.cells.size) (x : MachineM Value) :
  (x >>= push) m = operate 0 0 0 (fun _ => some <$> x) m
  := by
  have empty : m.stack.Holds m.stack.sp ([] ++ []) := ⟨rfl, fits, nofun⟩
  have read := operate_eq empty 0 (fun _ => some <$> x)
  simp only [onStack_shrink_zero, map_eq_pure_bind, bind_assoc, pure_bind] at read
  exact read.symm

/-- The top operand is overwritten by what is computed. -/
theorem bind_replaceTop_eq {x : MachineM Value} (off : OffStack x)
    (h : m.stack.Holds low (us ++ [v])) :
  (x >>= replaceTop) m = (x >>= fun w => onStack (Stack.shrink 1) >>= fun _ => push w) m
  := by
  have kept := off.stack m
  cases made : x m with
  | ok w m₁ =>
    rw [made] at kept
    rw [bind_of_ok made, bind_of_ok made]
    exact replaceTop_eq (kept ▸ h) w
  | error trap m₁ => rw [bind_of_error made, bind_of_error made]

theorem unary_eq_operate {f : Value → MachineM Value} (off : ∀ v, OffStack (f v))
    (h : m.stack.Holds low [v]) :
  unary f m = operate 1 0 1 (fun vs => some <$> f (vs.getD 0 .zero)) m
  := by
  have held : m.stack.Holds low ([] ++ [v]) := h
  have all : m.stack.Holds low ([v] ++ []) := h
  have read := operate_eq all 1 (fun vs => some <$> f (vs.getD 0 .zero))
  have top : peek 0 m = .ok v m := peek_eq held
  simp only [map_eq_pure_bind, bind_assoc, pure_bind] at read
  unfold unary
  rw [bind_of_ok top]
  exact (bind_replaceTop_eq (off v) held).trans read.symm

theorem binary_eq_operate {f : Value → Value → MachineM Value}
    (off : ∀ lhs rhs, OffStack (f lhs rhs)) (h : m.stack.Holds low [lhs, rhs]) :
  binary f m
    = operate 2 1 1 (fun vs => some <$> f (vs.getD 0 .zero) (vs.getD 1 .zero)) m
  := by
  have held : m.stack.Holds low ([lhs] ++ [rhs]) := h
  have left : (m.lowered 1).stack.Holds low ([] ++ [lhs]) := held.lowered
  have read := operate_eq held 1
    (fun vs => some <$> f (vs.getD 0 .zero) (vs.getD 1 .zero))
  have top : peek 0 (m.lowered 1) = .ok lhs (m.lowered 1) := peek_eq left
  simp only [map_eq_pure_bind, bind_assoc, pure_bind] at read
  unfold binary
  rw [bind_of_ok (pop_eq held), bind_of_ok top]
  exact (bind_replaceTop_eq (off lhs rhs) left).trans read.symm

/-- All operands are dropped first. -/
theorem operate_all (h : m.stack.Holds low vs)
    (compute : List Value → MachineM (Option Value)) :
  operate vs.length vs.length 0 compute m
    = (compute vs >>= pushResult) (m.lowered vs.length)
  := by
  have all : m.stack.Holds low ([] ++ vs) := h
  exact operate_eq all 0 compute

theorem pop_pop_eq (h : m.stack.Holds low (us ++ [lhs, rhs])) (f : Value → Value → MachineM α) :
  (pop >>= fun rhs => pop >>= fun lhs => f lhs rhs) m = f lhs rhs (m.lowered 2)
  := by
  have held : m.stack.Holds low ((us ++ [lhs]) ++ [rhs]) := by simpa using h
  have left : (m.lowered 1).stack.Holds low (us ++ [lhs]) := held.lowered
  rw [bind_of_ok (pop_eq held), bind_of_ok (pop_eq left)]
  simp [lowered]

theorem map_some_bind_pushResult (x : MachineM Value) :
  (some <$> x) >>= pushResult = x >>= push
  := by
  simp only [map_eq_pure_bind, bind_assoc, pure_bind]
  rfl

theorem map_none_bind_pushResult (x : MachineM Unit) :
  ((fun _ => none) <$> x) >>= pushResult = x
  := by
  simp only [map_eq_pure_bind, bind_assoc, pure_bind]
  exact bind_pure x

/-- Executing an instruction amounts to an action that does the same. -/
theorem execute_eq_of {i : Instruction} {x y : MachineM Unit}
    (eq : execute i = x >>= fun _ => pure none) (same : x m = y m) :
  execute i m = (y >>= fun _ => pure none) m
  := by
  rw [eq]
  exact bind_congr_at same _

theorem pushConstant_eq (index : Nat) (select : Constant → Option (MachineM Value)) :
  pushConstant index select = Instruction.compute.literal index select >>= push
  := by
  unfold pushConstant Instruction.compute.literal
  rw [bind_assoc]
  congr 1
  funext m
  cases (m.exe.constants[index]?).bind select with
  | none => rfl
  | some x => rfl

theorem compareReferences_eq (h : m.stack.Holds low [lhs, rhs]) (equal : Bool) :
  compareReferences equal m
    = operate 2 2 0 (fun vs => pure (some (.ofBool
        (((vs.getD 0 .zero).handle? == (vs.getD 1 .zero).handle?) == equal)))) m
  := by
  have held : m.stack.Holds low ([] ++ [lhs, rhs]) := h
  have read := operate_all h fun vs => (pure (some (.ofBool
    (((vs.getD 0 .zero).handle? == (vs.getD 1 .zero).handle?) == equal))) : MachineM (Option Value))
  exact (pop_pop_eq held _).trans read.symm

theorem concatenate_eq (h : m.stack.Holds low [lhs, rhs]) :
  concatenate m
    = operate 2 0 2 (fun vs => do
        return some (← newString
          ((← textOrNull (vs.getD 0 .zero)) ++ (← textOrNull (vs.getD 1 .zero))))) m
  := by
  have upper : m.stack.Holds low ([lhs] ++ rhs :: []) := h
  have lower : m.stack.Holds low ([] ++ lhs :: [rhs]) := h
  have all : m.stack.Holds low ([lhs, rhs] ++ []) := h
  have first : peek 0 m = .ok rhs m := peek_eq upper
  have second : peek 1 m = .ok lhs m := peek_eq lower
  have read := operate_eq all 2 (fun vs => do
    return some (← newString
      ((← textOrNull (vs.getD 0 .zero)) ++ (← textOrNull (vs.getD 1 .zero)))))
  simp only [bind_assoc, pure_bind] at read
  unfold concatenate
  rw [bind_of_ok first, bind_of_ok second]
  exact read.symm

/-- The items of an array literal are dropped when the array has been made. -/
theorem newArrayLiteral_eq (h : m.stack.Holds low vs) (kind : SlotKind) :
  (do
      let values ← onStack (Stack.top vs.length)
      let array ← allocate (arrayOfValues kind values)
      onStack (Stack.shrink vs.length)
      push array) m
    = operate vs.length 0 vs.length (fun vs => some <$> allocate (arrayOfValues kind vs)) m
  := by
  have all : m.stack.Holds low (vs ++ []) := by simpa using h
  have read := operate_eq all vs.length (fun vs => some <$> allocate (arrayOfValues kind vs))
  simp only [List.append_nil, map_eq_pure_bind, bind_assoc, pure_bind] at read
  rw [bind_of_ok (top_eq h)]
  exact read.symm

/-- A value is computed from the top one, which stays. -/
theorem peek_bind_eq (h : m.stack.Holds low [v]) (f : Value → MachineM (Option Value)) :
  (peek 0 >>= fun v => f v >>= pushResult) m
    = operate 1 0 0 (fun vs => f (vs.getD 0 .zero)) m
  := by
  have held : m.stack.Holds low ([] ++ [v]) := h
  have all : m.stack.Holds low ([v] ++ []) := h
  have top : peek 0 m = .ok v m := peek_eq held
  rw [bind_of_ok top]
  exact (operate_eq all 0 (fun vs => f (vs.getD 0 .zero))).symm

/-- A value is computed from the top one, which has been dropped. -/
theorem pop_bind_eq (h : m.stack.Holds low [v]) (f : Value → MachineM (Option Value)) :
  (pop >>= fun v => f v >>= pushResult) m
    = operate 1 1 0 (fun vs => f (vs.getD 0 .zero)) m
  := by
  have held : m.stack.Holds low ([] ++ [v]) := h
  rw [bind_of_ok (pop_eq held)]
  exact (operate_all h fun vs => f (vs.getD 0 .zero)).symm

theorem pop_pop_bind_eq (h : m.stack.Holds low [lhs, rhs])
    (f : Value → Value → MachineM (Option Value)) :
  (pop >>= fun rhs => pop >>= fun lhs => f lhs rhs >>= pushResult) m
    = operate 2 2 0 (fun vs => f (vs.getD 0 .zero) (vs.getD 1 .zero)) m
  := by
  have held : m.stack.Holds low ([] ++ [lhs, rhs]) := h
  rw [pop_pop_eq held]
  exact (operate_all h fun vs => f (vs.getD 0 .zero) (vs.getD 1 .zero)).symm

theorem pop_pop_pop_bind_eq {u v w : Value} (h : m.stack.Holds low [u, v, w])
    (f : Value → Value → Value → MachineM (Option Value)) :
  (pop >>= fun w => pop >>= fun v => pop >>= fun u => f u v w >>= pushResult) m
    = operate 3 3 0
        (fun vs => f (vs.getD 0 .zero) (vs.getD 1 .zero) (vs.getD 2 .zero)) m
  := by
  have held : m.stack.Holds low ([u, v] ++ [w]) := h
  have left : (m.lowered 1).stack.Holds low ([] ++ [u, v]) := held.lowered
  rw [bind_of_ok (pop_eq held), pop_pop_eq left]
  have read := operate_all h fun vs => f (vs.getD 0 .zero) (vs.getD 1 .zero) (vs.getD 2 .zero)
  exact read.symm

/-- Executing a plain instruction amounts to operating with its computation. -/
theorem execute_eq_operate {i : Instruction} (plain : i.op.isPlain) (h : m.stack.Holds low vs)
    (count : vs.length = i.reads) :
  execute i m = (operate i.reads i.early i.late i.compute >>= fun _ => pure none) m
  := by
  obtain ⟨pc, op, operand⟩ := i
  have one (single : vs.length = 1) : ∃ v, vs = [v] := List.length_eq_one_iff.1 single
  have two (double : vs.length = 2) : ∃ v w, vs = [v, w] := List.length_eq_two.1 double
  have made (x : MachineM Value) : (x >>= push) m = operate 0 0 0 (fun _ => some <$> x) m :=
    push_eq_operate h.fits x
  cases op with
  | pushInt1Byte | pushInt2Byte | pushDouble0 | pushDouble1 | pushNull | pushFunction =>
    exact execute_eq_of rfl (made (pure _))
  | pushInt | pushDouble | pushString =>
    exact execute_eq_of rfl ((congrFun (pushConstant_eq ..) m).trans (made _))
  | pushStack kind | popStack kind | jump | jumpIfTrue | jumpIfFalse | invoke | ret => cases plain
  | pushStatic kind => exact execute_eq_of (bind_assoc ..).symm (made (getGlobal _))
  | popStatic kind =>
    obtain ⟨v, rfl⟩ := one count
    have read := pop_bind_eq h fun v =>
      (fun _ => none) <$> setGlobal (operand.getD 0).toNat v
    simp only [map_none_bind_pushResult] at read
    exact execute_eq_of (bind_assoc ..).symm read
  | pushArray kind =>
    obtain ⟨array, index, rfl⟩ := two count
    have read := pop_pop_bind_eq h fun array index => some <$> arrayGet array index.toInt
    simp only [map_some_bind_pushResult] at read
    exact execute_eq_of (by simp only [bind_assoc]; rfl) read
  | popArray kind =>
    obtain ⟨v, array, index, rfl⟩ := List.length_eq_three.1 count
    have read := pop_pop_pop_bind_eq h fun v array index =>
      (fun _ => none) <$> arraySet array index.toInt v
    simp only [map_none_bind_pushResult] at read
    exact execute_eq_of (by simp only [bind_assoc]; rfl) read
  | pushField kind =>
    obtain ⟨v, rfl⟩ := one count
    have read := pop_bind_eq h fun v => some <$> getField v (operand.getD 0).toNat
    simp only [map_some_bind_pushResult] at read
    exact execute_eq_of (by simp only [bind_assoc]; rfl) read
  | popField kind =>
    obtain ⟨v, target, rfl⟩ := two count
    have read := pop_pop_bind_eq h fun v target =>
      (fun _ => none) <$> setField target (operand.getD 0).toNat v
    simp only [map_none_bind_pushResult] at read
    exact execute_eq_of (by simp only [bind_assoc]; rfl) read
  | arithInt op =>
    obtain ⟨lhs, rhs, rfl⟩ := two count
    exact execute_eq_of rfl (binary_eq_operate (fun _ _ => (looks_arithInts _ _ _).offStack) h)
  | arithDouble op | compareInt op | compareDouble op =>
    obtain ⟨lhs, rhs, rfl⟩ := two count
    exact execute_eq_of rfl (binary_eq_operate (fun _ _ => .pure _) h)
  | addString =>
    obtain ⟨lhs, rhs, rfl⟩ := two count
    exact execute_eq_of rfl (concatenate_eq h)
  | minusInt | minusDouble | logicalNot =>
    obtain ⟨v, rfl⟩ := one count
    exact execute_eq_of rfl (unary_eq_operate (fun _ => .pure _) h)
  | cast conversion =>
    obtain ⟨v, rfl⟩ := one count
    exact execute_eq_of rfl (unary_eq_operate (offStack_convert conversion) h)
  | compareString op =>
    obtain ⟨lhs, rhs, rfl⟩ := two count
    exact execute_eq_of rfl (binary_eq_operate (fun _ _ => (looks_compareStrings _ _ _).offStack) h)
  | eqObject =>
    obtain ⟨lhs, rhs, rfl⟩ := two count
    exact execute_eq_of rfl (compareReferences_eq h true)
  | neObject =>
    obtain ⟨lhs, rhs, rfl⟩ := two count
    exact execute_eq_of rfl (compareReferences_eq h false)
  | pop =>
    obtain ⟨v, rfl⟩ := one count
    exact execute_eq_of rfl (pop_bind_eq h fun _ => pure none)
  | duplicate =>
    obtain ⟨v, rfl⟩ := one count
    exact execute_eq_of (bind_assoc ..).symm (peek_bind_eq h fun v => pure (some v))
  | pushMethod =>
    obtain ⟨v, rfl⟩ := one count
    have read := peek_bind_eq h fun v =>
      (fun function => some (.ofNat function.toNat)) <$> methodFunction v (operand.getD 0).toNat
    simp only [map_eq_pure_bind, bind_assoc, pure_bind] at read
    exact execute_eq_of (by simp only [bind_assoc]; rfl) read
  | new => exact execute_eq_of (bind_assoc ..).symm (made (newInstance _))
  | newArray kind =>
    obtain ⟨v, rfl⟩ := one count
    have read := pop_bind_eq h fun v => some <$> newArray kind v.toInt
    simp only [map_some_bind_pushResult] at read
    exact execute_eq_of (by simp only [bind_assoc]; rfl) read
  | newArrayLiteral kind =>
    have read := newArrayLiteral_eq h kind
    rw [count] at read
    exact execute_eq_of (by simp only [bind_assoc]; rfl) read
  | arraySize =>
    obtain ⟨v, rfl⟩ := one count
    exact execute_eq_of rfl
      (unary_eq_operate (fun v => (looks_arrayLength v).offStack.bind fun _ => .pure _) h)
  | stringLength =>
    obtain ⟨v, rfl⟩ := one count
    exact execute_eq_of rfl
      (unary_eq_operate (fun v => (looks_expectString v).offStack.bind fun _ => .pure _) h)
  | downCast =>
    obtain ⟨v, rfl⟩ := one count
    have read := peek_bind_eq h fun v => (fun _ => none) <$> downCast v (operand.getD 0)
    simp only [map_none_bind_pushResult] at read
    exact execute_eq_of (bind_assoc ..).symm read
  | instanceOf =>
    obtain ⟨v, rfl⟩ := one count
    exact execute_eq_of rfl
      (unary_eq_operate (fun v => (looks_instanceOf v _).offStack.bind fun _ => .pure _) h)

/-! ### What operating leaves behind -/

theorem onStack_eq_ok {m : Machine} {a : α} (run : onStack action m = .ok a m') :
  ∃ s, action m.stack = .ok a s ∧ m' = { m with stack := s }
  := by
  rw [onStack_eq] at run
  cases acted : action m.stack with
  | ok b s =>
    rw [acted] at run
    cases run
    exact ⟨s, rfl, rfl⟩
  | error trap s =>
    rw [acted] at run
    cases run

theorem onStack_eq_error {m : Machine} {trap : Trap} (run : onStack action m = .error trap m') :
  ∃ s, action m.stack = .error trap s ∧ m' = { m with stack := s }
  := by
  rw [onStack_eq] at run
  cases acted : action m.stack with
  | ok b s =>
    rw [acted] at run
    cases run
  | error e s =>
    rw [acted] at run
    cases run
    exact ⟨s, rfl, rfl⟩

theorem onHost_eq_ok {action : EStateM Trap Host α} {m : Machine} {a : α}
    (run : onHost action m = .ok a m') :
  ∃ host, action m.host = .ok a host ∧ m' = { m with host }
  := by
  rw [onHost_eq] at run
  cases acted : action m.host with
  | ok b host =>
    rw [acted] at run
    cases run
    exact ⟨host, rfl, rfl⟩
  | error trap host =>
    rw [acted] at run
    cases run

theorem pushResult_eq_ok {result : Option Value} {s : Stack}
    (rewritten : s.Rewritten low us m.stack) (run : pushResult result m = .ok () m') :
  s.Rewritten low (us ++ result.toList) m'.stack ∧ m' = { m with stack := m'.stack }
  := by
  cases result with
  | none =>
    cases run
    exact ⟨by simpa using rewritten, rfl⟩
  | some v =>
    obtain ⟨s', pushed, rfl⟩ := onStack_eq_ok run
    exact ⟨rewritten.push pushed, rfl⟩

/-- The operands are read and some of them dropped; what has been computed from them is pushed
on top of those that are left. -/
theorem operate_eq_ok {early late : Nat} {compute : List Value → MachineM (Option Value)}
    (off : OffStack (compute vs)) (h : m.stack.Holds low vs) (drops : early + late ≤ vs.length)
    (run : operate vs.length early late compute m = .ok () m') :
  ∃ result m₁, compute vs (m.lowered early) = .ok result m₁
    ∧ m.stack.Rewritten low (vs.take (vs.length - (early + late)) ++ result.toList) m'.stack
    ∧ m' = { m₁ with stack := m'.stack }
  := by
  have sp := h.sp_eq
  unfold operate at run
  rw [bind_of_ok (top_eq h), bind_of_ok (shrink_eq (by omega))] at run
  obtain ⟨result, m₁, computed, rest⟩ := bind_eq_ok.1 run
  have kept : m₁.stack = m.stack.lowered early := by
    have same := off.stack (m.lowered early)
    rw [computed] at same
    exact same
  have enough : late ≤ m₁.stack.sp := by
    rw [kept, Stack.lowered_sp]
    omega
  rw [bind_of_ok (shrink_eq enough)] at rest
  have left : m.stack.Rewritten low (vs.take (vs.length - (early + late)))
      (m₁.stack.lowered late) := by
    rw [kept, Stack.lowered_lowered]
    exact .lowered h drops
  obtain ⟨rewritten, same⟩ := pushResult_eq_ok left rest
  exact ⟨result, m₁, computed, rewritten, same⟩

/-! ### What operating does not touch -/

/-- Other contents for some cells of the stack. -/
def patched (q : Nat → Option Cell) (m : Machine) : Machine :=
  { m with stack := m.stack.patched q }

theorem onStack_patched
    (commutes : action (m.stack.patched q) = onState (Stack.patched q) (action m.stack)) :
  onStack action (m.patched q) = onState (patched q) (onStack action m)
  := by
  rw [onStack_eq, onStack_eq]
  change (match action (m.stack.patched q) with | .ok a s => _ | .error t s => _) = _
  rw [commutes]
  cases action m.stack with
  | ok a s => rfl
  | error trap s => rfl

/-- An action off the stack does not touch any cell. -/
theorem offStack_patched {x : MachineM α} (off : OffStack x) (q : Nat → Option Cell) :
  x (m.patched q) = onState (patched q) (x m)
  := by
  have kept := off.stack m
  have moved := off.commutes m (m.stack.patched q)
  change x (m.patched q) = _ at moved
  rw [moved]
  cases ran : x m with
  | ok a m₁ =>
    rw [ran] at kept
    change m₁.stack = m.stack at kept
    simp only [onState_ok, patched, kept]
  | error trap m₁ =>
    rw [ran] at kept
    change m₁.stack = m.stack at kept
    simp only [onState_error, patched, kept]

theorem push_patched (spared : ∀ k, m.stack.sp ≤ k → q k = none) (v : Value) :
  push v (m.patched q) = onState (patched q) (push v m)
  := onStack_patched (Stack.pushCell_patched spared (.value v))

/-- Operating neither reads nor writes cells below its operands. -/
theorem operate_patched {early late : Nat} {compute : List Value → MachineM (Option Value)}
    (off : OffStack (compute vs)) (h : m.stack.Holds low vs) (drops : early + late ≤ vs.length)
    (spared : ∀ k, low ≤ k → q k = none) :
  operate vs.length early late compute (m.patched q)
    = onState (patched q) (operate vs.length early late compute m)
  := by
  have sp := h.sp_eq
  have read : onStack (Stack.top vs.length) (m.patched q) = .ok vs (m.patched q) :=
    top_eq (h.patched spared)
  have dropped : onStack (Stack.shrink early) (m.patched q) = .ok () ((m.lowered early).patched q) :=
    shrink_eq (by change early ≤ m.stack.sp; omega)
  unfold operate
  rw [bind_of_ok (top_eq h), bind_of_ok (shrink_eq (by omega)), bind_of_ok read,
    bind_of_ok dropped]
  apply bind_onState (offStack_patched off q)
  intro result m₁ computed
  have kept : m₁.stack = m.stack.lowered early := by
    have same := off.stack (m.lowered early)
    rw [computed] at same
    exact same
  apply bind_onState (onStack_patched (Stack.shrink_patched _))
  intro _ m₂ dropped'
  have lower : m₂.stack.sp = m.stack.sp - early - late := by
    rw [shrink_eq (by rw [kept, Stack.lowered_sp]; omega)] at dropped'
    cases dropped'
    change m₁.stack.sp - late = _
    rw [kept, Stack.lowered_sp]
  cases result with
  | none => rfl
  | some v => exact push_patched (fun k above => spared k (by omega)) v

end Machine

/-! ### Plain instructions as a whole -/

namespace Instruction

theorem drops_le_reads (i : Instruction) :
  i.early + i.late ≤ i.reads
  := by
  obtain ⟨pc, op, operand⟩ := i
  cases op with
  | newArrayLiteral kind => exact Nat.le_of_eq (Nat.zero_add _)
  | _ => exact Nat.le_of_ble_eq_true rfl

/-- Whether an action yields a value, if it succeeds. -/
def Yields (value : Bool) (x : MachineM (Option Value)) : Prop :=
  ∀ m result m', x m = .ok result m' → result.isSome = value

theorem yields_some {α : Type} (x : MachineM α) (f : α → Value) :
  Yields true ((fun a => some (f a)) <$> x)
  := by
  intro m result m' run
  obtain ⟨v, -, rfl⟩ := map_eq_ok.1 run
  rfl

theorem yields_none (x : MachineM Unit) :
  Yields false ((fun _ => none) <$> x)
  := by
  intro m result m' run
  obtain ⟨_, -, rfl⟩ := map_eq_ok.1 run
  rfl

theorem yields_pure (result : Option Value) :
  Yields result.isSome (pure result)
  := by
  intro m result' m' run
  obtain ⟨rfl, -⟩ := pure_eq_ok.1 run
  rfl

theorem Yields.bind {α : Type} {x : MachineM α} {f : α → MachineM (Option Value)} {value : Bool}
    (each : ∀ a, Yields value (f a)) :
  Yields value (x >>= f)
  := by
  intro m result m' run
  obtain ⟨a, m₁, -, rest⟩ := bind_eq_ok.1 run
  exact each a m₁ result m' rest

/-- A plain instruction leaves as many values as it should. -/
theorem length_of_compute_eq_ok {i : Instruction} (plain : i.op.isPlain) {vs : List Value}
    {m m' : Machine} {result : Option Value} (run : i.compute vs m = .ok result m') :
  i.reads - (i.early + i.late) + result.toList.length = i.op.leaves
  := by
  have leaves {value : Bool} (yields : Yields value (i.compute vs))
      (count : i.reads - (i.early + i.late) + value.toNat = i.op.leaves) :
      i.reads - (i.early + i.late) + result.toList.length = i.op.leaves := by
    obtain rfl := yields m result m' run
    cases result with
    | none | some v => exact count
  clear run
  obtain ⟨pc, op, operand⟩ := i
  cases op with
  | pushStack kind | popStack kind | jump | jumpIfTrue | jumpIfFalse | invoke | ret => cases plain
  | popStatic kind | popArray kind | popField kind | downCast => exact leaves (yields_none _) rfl
  | pop => exact leaves (yields_pure none) rfl
  | addString =>
    exact leaves (.bind fun _ => .bind fun _ => .bind fun _ => yields_pure (some _)) rfl
  | pushMethod => exact leaves (yields_some _ _) rfl
  | newArrayLiteral kind =>
    exact leaves (yields_some _ id) (by simp [reads, early, late, Op.takes, Op.leaves])
  | pushInt1Byte | pushInt2Byte | pushDouble0 | pushDouble1 | pushNull | arithDouble op
  | minusInt | minusDouble | compareInt op | compareDouble op | eqObject | neObject | logicalNot
  | duplicate | pushFunction => exact leaves (yields_pure (some _)) rfl
  | _ => exact leaves (yields_some _ id) rfl

end Instruction

namespace Machine

variable {m m' : Machine} {low : Nat} {vs : List Value} {i : Instruction} {ended : Option Value}

/-- What a plain instruction has done when it succeeds. -/
theorem execute_plain_eq_ok (plain : i.op.isPlain) (h : m.stack.Holds low vs)
    (count : vs.length = i.reads) (run : execute i m = .ok ended m') :
  ended = none ∧ ∃ result m₁, i.compute vs (m.lowered i.early) = .ok result m₁
    ∧ m.stack.Rewritten low (vs.take (vs.length - (i.early + i.late)) ++ result.toList) m'.stack
    ∧ m' = { m₁ with stack := m'.stack }
  := by
  rw [execute_eq_operate plain h count] at run
  obtain ⟨_, m₂, operated, ends⟩ := bind_eq_ok.1 run
  obtain ⟨rfl, rfl⟩ := pure_eq_ok.1 ends
  rw [← count] at operated
  have drops := i.drops_le_reads
  exact ⟨rfl, operate_eq_ok (i.offStack_compute vs) h (by omega) operated⟩

/-- A plain instruction neither reads nor writes cells below its operands. -/
theorem execute_plain_patched {q : Nat → Option Cell} (plain : i.op.isPlain)
    (h : m.stack.Holds low vs) (count : vs.length = i.reads)
    (spared : ∀ k, low ≤ k → q k = none) :
  execute i (m.patched q) = onState (patched q) (execute i m)
  := by
  have held : (m.patched q).stack.Holds low vs := h.patched spared
  have drops := i.drops_le_reads
  rw [execute_eq_operate plain h count, execute_eq_operate plain held count, ← count]
  apply bind_onState
  · exact operate_patched (i.offStack_compute vs) h (by omega) spared
  · exact fun _ _ _ => rfl

end Machine

end Bytecode
