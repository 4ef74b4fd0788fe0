import Mathlib
import Bytecode.Proofs.Heap.Derivation
import Bytecode.Proofs.Machine.Calls

/-!
# What instructions are made of

An instruction that neither jumps nor calls nor returns consists of actions on the values of the
stack and of actions off the stack. These raise no faults but those of values, `Fault.isOrdinary`,
and do to the heap only what derives one from another; they are `Ordinary`. Actions that are put
together from all these are `Made`, and `made_execute` says that such an instruction is made this
way, whatever the stack looks like. What all these actions have in common is then shared by all
these instructions.
-/

namespace Bytecode

open Machine

/-! ### Ordinary actions -/

/-- What the action makes of the heap is derived from it. -/
structure Derives {α : Type} (x : MachineM α) : Prop where
  exe : ∀ m, (stateOf (x m)).exe = m.exe
  heap : ∀ m : Machine, m.heap.Derived m.exe (stateOf (x m)).heap

namespace Derives

variable {α β : Type}

/-- An action that at most yields something. -/
theorem of_unchanged {x : MachineM α} (unchanged : ∀ m, stateOf (x m) = m) :
  Derives x
  where
  exe m := by rw [unchanged]
  heap m := by
    rw [unchanged]
    exact .refl

theorem pure (a : α) :
  Derives (Pure.pure a : MachineM α)
  := of_unchanged fun _ => rfl

theorem throw (trap : Trap) :
  Derives (MonadExcept.throw trap : MachineM α)
  := of_unchanged fun _ => rfl

theorem bind {x : MachineM α} {f : α → MachineM β} (first : Derives x)
    (second : ∀ a, Derives (f a)) :
  Derives (x >>= f)
  where
  exe m := stateOf_bind_congr Machine.exe (first.exe m) fun a => (second a).exe
  heap m := by
    have kept := first.exe m
    have derived := first.heap m
    rw [stateOf_bind]
    cases run : x m with
    | ok a m₁ =>
      rw [run] at kept derived
      have later := (second a).heap m₁
      rw [show m₁.exe = m.exe from kept] at later
      exact derived.trans later
    | error trap m₁ =>
      rw [run] at derived
      exact derived

theorem get_bind {f : Machine → MachineM β} (each : ∀ m, Derives (f m)) :
  Derives (get >>= f)
  where
  exe m := (each m).exe m
  heap m := (each m).heap m

theorem modifyHeap {f : Heap → α × Heap} (derived : ∀ exe h, Heap.Derived exe h (f h).2) :
  Derives (Machine.modifyHeap f)
  where
  exe m := by
    rw [modifyHeap_eq]
    rfl
  heap m := by
    rw [modifyHeap_eq]
    exact derived m.exe m.heap

end Derives

/-- All faults that the action raises are ordinary, and so is what it does to the heap. -/
structure Ordinary {α : Type} (x : MachineM α) : Prop where
  faults : ∀ m f m', x m = .error (.error f) m' → f.isOrdinary
  derives : Derives x

namespace Ordinary

variable {α β : Type}

theorem pure (a : α) :
  Ordinary (Pure.pure a : MachineM α)
  := ⟨nofun, .pure a⟩

theorem crash :
  Ordinary (Machine.crash : MachineM α)
  := ⟨nofun, .throw _⟩

theorem fault {f : Fault} (ordinary : f.isOrdinary) :
  Ordinary (Machine.fault f : MachineM α)
  := by
  refine ⟨?_, .throw _⟩
  intro m f' m' raised
  cases raised
  exact ordinary

theorem bind {x : MachineM α} {f : α → MachineM β} (first : Ordinary x)
    (second : ∀ a, Ordinary (f a)) :
  Ordinary (x >>= f)
  := by
  refine ⟨?_, first.derives.bind fun a => (second a).derives⟩
  intro m fault m' raised
  rcases bind_eq_error.1 raised with failed | ⟨a, m₁, -, failed⟩
  · apply first.faults m fault m' failed
  · apply (second a).faults m₁ fault m' failed

theorem get_bind {f : Machine → MachineM β} (each : ∀ m, Ordinary (f m)) :
  Ordinary (get >>= f)
  := ⟨fun m => (each m).faults m, .get_bind fun m => (each m).derives⟩

theorem modifyHeap {f : Heap → α × Heap} (derived : ∀ exe h, Heap.Derived exe h (f h).2) :
  Ordinary (Machine.modifyHeap f)
  := by
  refine ⟨?_, .modifyHeap derived⟩
  intro m fault m' raised
  rw [modifyHeap_eq] at raised
  cases raised

end Ordinary

theorem Looks.ordinary {α : Type} {x : MachineM α} (looks : Looks x) :
  Ordinary x
  := ⟨looks.faults, .of_unchanged looks.reads⟩

theorem ordinary_setGlobal (index : Nat) (v : Value) :
  Ordinary (setGlobal index v)
  := by
  constructor
  · intro m f m' raised
    unfold setGlobal at raised
    split at raised
    all_goals cases raised
  · constructor
    · intro m
      unfold setGlobal
      split
      all_goals rfl
    · intro m
      unfold setGlobal
      split
      all_goals exact .refl

/-- An object is changed in a way that heaps are derived by. -/
theorem ordinary_updateObject (v : Value) {f : Object → Object}
    (derived : ∀ exe h handle, Heap.Derived exe h (h.update handle f)) :
  Ordinary (updateObject v f)
  := by
  unfold updateObject
  cases v.handle? with
  | none => exact .fault rfl
  | some handle => exact .modifyHeap fun exe h => derived exe h handle

/-- An object of a fixed shape is allocated. -/
theorem ordinary_allocate {o : Object} (shaped : ∀ exe, o.Shaped exe) :
  Ordinary (allocate o)
  := .modifyHeap fun exe _ => .alloc .refl (shaped exe)

theorem ordinary_newString (text : String) :
  Ordinary (newString text)
  := .modifyHeap fun _ _ => .allocString .refl text

theorem ordinary_arraySet (array : Value) (index : Int64) (v : Value) :
  Ordinary (arraySet array index v)
  := by
  apply (looks_object array).ordinary.bind
  intro o
  apply (looks_checkIndex index _).ordinary.bind
  intro i
  exact ordinary_updateObject array fun _ _ handle => .setElement handle i v .refl

theorem ordinary_newArray (kind : SlotKind) (size : Int64) :
  Ordinary (newArray kind size)
  := by
  unfold newArray
  split
  · exact .fault rfl
  · split
    · exact .crash
    · exact ordinary_allocate fun exe => Object.shaped_zeroArray exe kind _

/-- A new instance has the fields of its class, which is one of the table. -/
theorem ordinary_newInstance {index : Nat} (word : index < 2 ^ 16) :
  Ordinary (newInstance index)
  := by
  have faults : ∀ m f m', newInstance index m = .error (.error f) m' → f.isOrdinary := by
    intro m f m' raised
    rw [newInstance, bind_of_ok (get_eq m)] at raised
    cases found : m.exe.classes[index]? with
    | none =>
      rw [found] at raised
      cases raised
    | some c =>
      rw [found] at raised
      dsimp only at raised
      rw [modifyHeap_eq] at raised
      cases raised
  refine ⟨faults, (offStack_newInstance index).exe, ?_⟩
  intro m
  rw [newInstance, bind_of_ok (get_eq m)]
  cases found : m.exe.classes[index]? with
  | none => exact .refl
  | some c =>
    dsimp only
    rw [modifyHeap_eq]
    refine .alloc (.defaultValues .refl _) ⟨c, ?_, ?_⟩
    · rwa [UInt16.toNat_ofNat_of_lt' word]
    · rw [List.size_toArray, Heap.length_defaultValues, List.length_map]

theorem ordinary_setField (object : Value) (index : Nat) (v : Value) :
  Ordinary (setField object index v)
  := by
  apply (looks_expectInstance object).ordinary.bind
  intro found
  dsimp only
  split
  · exact ordinary_updateObject _ fun _ _ handle => .setField handle index v .refl
  · exact .crash

theorem ordinary_convert (conversion : Conversion) (v : Value) :
  Ordinary (convert conversion v)
  := by
  cases conversion with
  | intToDouble | doubleToInt => exact .pure _
  | _ => exact ordinary_newString _

/-! ### Made actions -/

/-- The actions of instructions on the values of a stack. -/
inductive Stack.OnValues : {α : Type} → StackM α → Prop
  | push (v : Value) : OnValues (push v)
  | pop : OnValues pop
  | peek (depth : Nat) : OnValues (peek depth)
  | replace (depth : Nat) (v : Value) : OnValues (replace depth v)
  | top (count : Nat) : OnValues (top count)
  | shrink (count : Nat) : OnValues (shrink count)
  | get (index : Nat) : OnValues (get index)
  | set (index : Nat) (v : Value) : OnValues (set index v)

/-- The action is put together from actions on the values of the stack and actions off it. -/
inductive Made : {α : Type} → MachineM α → Prop
  | pure {α : Type} (a : α) : Made (pure a : MachineM α)
  | bind {α β : Type} {x : MachineM α} {f : α → MachineM β} :
      Made x → (∀ a, Made (f a)) → Made (x >>= f)
  | onStack {α : Type} {action : StackM α} : Stack.OnValues action → Made (onStack action)
  | offStack {α : Type} {x : MachineM α} : OffStack x → Ordinary x → Made x

namespace Made

variable {α β : Type}

theorem popped {f : Value → MachineM α} (each : ∀ v, Made (f v)) :
  Made (pop >>= f)
  := (onStack .pop).bind each

theorem pushed {x : MachineM Value} (made : Made x) {f : Unit → MachineM β} (rest : Made (f ())) :
  Made (x >>= fun v => push v >>= f)
  := made.bind fun v => (onStack (.push v)).bind fun _ => rest

theorem unary {f : Value → MachineM Value} (each : ∀ v, Made (f v)) :
  Made (Machine.unary f)
  := (onStack (.peek 0)).bind fun v => (each v).bind fun w => onStack (.replace 0 w)

theorem binary {f : Value → Value → MachineM Value} (each : ∀ v w, Made (f v w)) :
  Made (Machine.binary f)
  := popped fun w => (onStack (.peek 0)).bind fun v => (each v w).bind fun u =>
    onStack (.replace 0 u)

theorem frameSlot (offset : Nat) :
  Made (Machine.frameSlot offset)
  := offStack (.get_bind (fun _ _ => rfl) fun _ => .pure _) (.get_bind fun _ => .pure _)

end Made

theorem Looks.made {α : Type} {x : MachineM α} (looks : Looks x) :
  Made x
  := .offStack looks.offStack looks.ordinary

theorem made_pushLocals (decls : List VariableDecl) :
  Made (pushLocals decls)
  := by
  induction decls with
  | nil => exact .pure _
  | cons decl rest ih =>
    have ordinary : Ordinary (modifyHeap (Heap.defaultValue decl.ty)) :=
      .modifyHeap fun _ _ => .defaultValue .refl _
    exact (Made.offStack (.modifyHeap _) ordinary).bind fun v =>
      (Made.onStack (.push v)).bind fun _ => ih

theorem made_pushAll (args : List Value) :
  Made (pushAll args)
  := by
  induction args with
  | nil => exact .pure _
  | cons v rest ih => exact (Made.onStack (.push v)).bind fun _ => ih

/-- The instruction goes on behind itself in the same code. -/
def Op.isStraight (op : Op) : Bool := !op.isJump && op != .invoke && op != .ret

/-- An instruction that goes on behind itself is made of actions on values, unless it pushes a
constant. -/
theorem made_execute {i : Instruction} (straight : i.op.isStraight)
    (noConstant : i.op.shape? ≠ some .pool) :
  Made (execute i)
  := by
  have ends {x : MachineM Unit} (made : Made x) :
      Made (x >>= fun _ => (Pure.pure none : MachineM (Option Value))) :=
    made.bind fun _ => .pure _
  have push (v : Value) : Made (push v >>= fun _ => (Pure.pure none : MachineM (Option Value))) :=
    ends (.onStack (.push v))
  obtain ⟨pc, op, operand⟩ := i
  cases op with
  | pushInt1Byte | pushInt2Byte | pushDouble0 | pushDouble1 | pushNull | pushFunction =>
    exact push _
  | pushInt | pushDouble | pushString => exact absurd rfl noConstant
  | pushStack kind =>
    exact (Made.frameSlot _).bind fun k => (Made.onStack (.get k)).bind fun v => push v
  | popStack kind =>
    exact .popped fun v => (Made.frameSlot _).bind fun k => ends (.onStack (.set k v))
  | pushStatic kind => exact .pushed (looks_getGlobal _).made (.pure _)
  | popStatic kind =>
    exact .popped fun v => ends (.offStack (offStack_setGlobal _ v) (ordinary_setGlobal _ v))
  | pushArray kind =>
    exact .popped fun _ => .popped fun _ => .pushed (looks_arrayGet _ _).made (.pure _)
  | popArray kind =>
    exact .popped fun _ => .popped fun _ => .popped fun _ =>
      ends (.offStack (offStack_arraySet _ _ _) (ordinary_arraySet _ _ _))
  | pushField kind => exact .popped fun _ => .pushed (looks_getField _ _).made (.pure _)
  | popField kind =>
    exact .popped fun _ => .popped fun _ =>
      ends (.offStack (offStack_setField _ _ _) (ordinary_setField _ _ _))
  | arithInt op => exact ends (.binary fun _ _ => (looks_arithInts _ _ _).made)
  | arithDouble op | compareInt op | compareDouble op => exact ends (.binary fun _ _ => .pure _)
  | addString =>
    exact ends ((Made.onStack (.peek 0)).bind fun _ => (Made.onStack (.peek 1)).bind fun _ =>
      (looks_textOrNull _).made.bind fun _ =>
      (looks_textOrNull _).made.bind fun _ =>
      (Made.offStack (offStack_newString _) (ordinary_newString _)).bind fun v =>
      (Made.onStack (.shrink 2)).bind fun _ => .onStack (.push v))
  | minusInt | minusDouble | logicalNot => exact ends (.unary fun _ => .pure _)
  | cast conversion =>
    exact ends (.unary fun _ => .offStack (offStack_convert _ _) (ordinary_convert _ _))
  | compareString op => exact ends (.binary fun _ _ => (looks_compareStrings _ _ _).made)
  | eqObject | neObject => exact ends (.popped fun _ => .popped fun _ => .onStack (.push _))
  | pop => exact ends (.popped fun _ => .pure _)
  | duplicate => exact (Made.onStack (.peek 0)).bind fun v => push v
  | jump | jumpIfTrue | jumpIfFalse | invoke | ret => cases straight
  | pushMethod =>
    exact (Made.onStack (.peek 0)).bind fun _ => (looks_methodFunction _ _).made.bind fun _ => push _
  | new =>
    exact .pushed (.offStack (offStack_newInstance _) (ordinary_newInstance (UInt16.toNat_lt _)))
      (.pure _)
  | newArray kind =>
    exact .popped fun _ =>
      .pushed (.offStack (offStack_newArray _ _) (ordinary_newArray _ _)) (.pure _)
  | newArrayLiteral kind =>
    exact (Made.onStack (.top _)).bind fun _ =>
      (Made.offStack (offStack_allocate _) (ordinary_allocate fun exe =>
        Object.shaped_arrayOfValues exe kind _)).bind fun v =>
      (Made.onStack (.shrink _)).bind fun _ => push v
  | arraySize =>
    exact ends (.unary fun _ => (looks_arrayLength _).made.bind fun _ => .pure _)
  | stringLength =>
    exact ends (.unary fun _ => (looks_expectString _).made.bind fun _ => .pure _)
  | downCast =>
    exact (Made.onStack (.peek 0)).bind fun _ => ends (looks_downCast _ _).made
  | instanceOf =>
    exact ends (.unary fun _ => (looks_instanceOf _ _).made.bind fun _ => .pure _)

end Bytecode
