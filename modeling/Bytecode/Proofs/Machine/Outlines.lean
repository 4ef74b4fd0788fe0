import Mathlib
import Bytecode.Proofs.Machine.Evolution
import Bytecode.Proofs.Machine.Faults

/-!
# Outlines of objects

An object is a string with a text, an array of a kind with a length, or an instance of a class with a
number of fields: that is its outline. As long as an object is not collected it keeps its outline, so
that a string cannot be changed at all.

Instructions make objects, but only two kinds of them change one. `Machine.Allocates` is what all
others follow, calls and returns included; the other two write one element of one array or one field
of one instance.
-/

namespace Bytecode

open Machine

/-! ### Outlines -/

/-- What does not change in an object. -/
inductive Object.Outline where
  | string (text : String)
  | ints (length : Nat)
  | doubles (length : Nat)
  | refs (length : Nat)
  | inst (class_ : UInt16) (fieldCount : Nat)
  deriving DecidableEq, Repr

namespace Object

def outline : Object → Outline
  | .string text => .string text
  | .ints items => .ints items.size
  | .doubles items => .doubles items.size
  | .refs items => .refs items.size
  | .inst class_ fields => .inst class_ fields.size

@[simp] theorem outline_setElement (i : Nat) (v : Value) (o : Object) :
  (o.setElement i v).outline = o.outline
  := by
  cases o with
  | _ => simp [setElement, outline]

@[simp] theorem outline_setField (i : Nat) (v : Value) (o : Object) :
  (o.setField i v).outline = o.outline
  := by
  cases o with
  | _ => simp [setField, outline]

/-- The objects are arrays of one kind and length that differ in one element at most. -/
def ElementWritten (o o' : Object) : Prop :=
  ∃ length i, o.arrayLength? = some length ∧ i < length ∧ o'.outline = o.outline
    ∧ ∀ j, j ≠ i → o'.element? j = o.element? j

/-- The objects are instances of one class that differ in one field at most. -/
def FieldWritten (o o' : Object) : Prop :=
  ∃ class_ fields fields' i, o = .inst class_ fields ∧ o' = .inst class_ fields'
    ∧ fields'.size = fields.size ∧ i < fields.size ∧ ∀ j, j ≠ i → fields'[j]? = fields[j]?

theorem elementWritten_setElement {o : Object} {length i : Nat}
    (array : o.arrayLength? = some length) (inside : i < length) (v : Value) :
  o.ElementWritten (o.setElement i v)
  := by
  refine ⟨length, i, array, inside, outline_setElement i v o, ?_⟩
  intro j other
  cases o with
  | _ => simp [setElement, element?, Array.getElem?_setIfInBounds_ne (Ne.symm other)]

theorem fieldWritten_setField {class_ : UInt16} {fields : Array Value} {i : Nat}
    (inside : i < fields.size) (v : Value) :
  (inst class_ fields).FieldWritten ((inst class_ fields).setField i v)
  := by
  refine ⟨class_, fields, _, i, rfl, rfl, Array.size_setIfInBounds, inside, ?_⟩
  intro j other
  exact Array.getElem?_setIfInBounds_ne (Ne.symm other)

theorem FieldWritten.outline_eq {o o' : Object} (written : o.FieldWritten o') :
  o'.outline = o.outline
  := by
  obtain ⟨class_, fields, fields', i, rfl, rfl, size, -, -⟩ := written
  rw [outline, outline, size]

end Object

namespace Heap

variable {h h' : Heap}

/-- Every object is as it was. -/
def Keeps (h h' : Heap) : Prop :=
  ∀ slot o, h.objectAt slot = some o → h'.objectAt slot = some o

/-- Something was written in one object, and that is all that has changed. -/
def WritesOne (Written : Object → Object → Prop) (h h' : Heap) : Prop :=
  ∃ slot o o', h.objectAt slot = some o ∧ h'.objectAt slot = some o' ∧ Written o o'
    ∧ ∀ other, other ≠ slot → h'.objectAt other = h.objectAt other

/-- There is one more object, in a slot that was empty, and that is all that has changed. -/
structure Gains (h : Heap) (o : Object) (slot : Nat) (h' : Heap) : Prop where
  empty : h.objectAt slot = none
  there : h'.objectAt slot = some o
  others : ∀ other, other ≠ slot → h'.objectAt other = h.objectAt other

theorem writesOne_update {Written : Object → Object → Prop} {handle : Handle} {o : Object}
    {f : Object → Object} (found : h.get? handle = some o) (written : Written o (f o)) :
  h.WritesOne Written (h.update handle f)
  := by
  rw [get?_eq_objectAt] at found
  refine ⟨handle.index, o, f o, found, ?_, written, ?_⟩
  · rw [objectAt_update, if_pos rfl, found, Option.map_some]
  · intro other differs
    rw [objectAt_update, if_neg (Ne.symm differs)]

theorem WellFormed.gains_alloc (wf : h.WellFormed) (o : Object) :
  h.Gains o h.nextIndex (h.alloc o).2
  where
  empty := wf.objectAt_nextIndex
  there := by rw [wf.objectAt_alloc, if_pos rfl]
  others other differs := by rw [wf.objectAt_alloc, if_neg differs]

/-- The handle of a new object was not in use, and names the object. -/
theorem Gains.named {o : Object} {slot : Nat} (gains : h.Gains o slot h') (small : slot < 2 ^ 32) :
  h.contains (.ofIndex slot) = false ∧ h'.get? (.ofIndex slot) = some o
  := by
  rw [contains, get?_eq_objectAt, get?_eq_objectAt, Handle.index_ofIndex small, gains.empty]
  exact ⟨rfl, gains.there⟩

end Heap

/-! ### Actions that change no object -/

namespace Machine

variable {m m' m'' : Machine}

/-- With built-in native functions, objects are made and none is changed. -/
def Allocates (m m' : Machine) : Prop := m.BuiltIn → m'.BuiltIn ∧ m.heap.Extends m'.heap

instance : IsPreorder Machine Allocates where
  refl _ builtIn := ⟨builtIn, .refl _⟩
  trans _ _ _ first second builtIn :=
    ⟨(second (first builtIn).1).1, (first builtIn).2.trans (second (first builtIn).1).2⟩

theorem BuiltIn.of_same (builtIn : m.BuiltIn) (same : SameProgram m m') :
  m'.BuiltIn
  := by
  unfold BuiltIn
  rw [same.natives]
  exact builtIn

theorem Spares.allocates (spares : m.Spares m') :
  m.Allocates m'
  := fun builtIn => ⟨builtIn.of_same spares.program, spares.heap⟩

/-- What is on the stack and where the machine is does not matter. -/
theorem Allocates.frame (m : Machine) (s : Stack) (r : Registers) :
  m.Allocates { m with stack := s, registers := r }
  := fun builtIn => ⟨builtIn, .refl _⟩

end Machine

namespace Follows

variable {α : Type}

theorem allocates {x : MachineM α} (follows : Follows Spares x) :
  Follows Allocates x
  := fun m => (follows m).allocates

theorem onStack_allocates (action : StackM α) :
  Follows Allocates (onStack action)
  := Law.follows_onStack Allocates.frame action

theorem registers_allocates (f : Machine → Registers) :
  Follows Allocates (modify fun m => { m with registers := f m })
  := fun m => Allocates.frame m m.stack (f m)

end Follows

theorem callNative_allocates (index : Nat) (f : Function) :
  Follows Allocates (callNative index f)
  := by
  apply Law.follows_callNative fun _ => .onStack_allocates _
  intro m index native args bound builtIn
  have benign := Native.benign_of_mem_defaults (builtIn index native bound)
  rw [stateOf_onHost]
  refine ⟨builtIn, ?_⟩
  change m.heap.Extends (stateOf (native.run args m.host)).heap
  rw [benign.heap]
  exact .refl _

theorem pushLocals_allocates (decls : List VariableDecl) :
  Follows Allocates (pushLocals decls)
  := by
  induction decls with
  | nil => exact .pure _
  | cons decl rest ih =>
    exact (follows_modifyHeap fun h => .defaultValue h _).allocates.bind fun _ =>
      (Follows.onStack_allocates _).bind fun _ => ih

theorem enterFunction_allocates (index : Nat) (f : Function) (caller : Caller) :
  Follows Allocates (enterFunction index f caller)
  := Law.follows_enterFunction Follows.onStack_allocates Follows.registers_allocates
    pushLocals_allocates index f caller

theorem invoke_allocates :
  Follows Allocates invoke
  := .invoke (.onStack_allocates _) (fun _ => .registers_allocates _) callNative_allocates
    enterFunction_allocates

theorem beginCall_allocates (index : Nat) (f : Function) (args : List Value) :
  Follows Allocates (beginCall index f args)
  := by
  have pushed (args : List Value) : Follows Allocates (pushAll args) := by
    induction args with
    | nil => exact .pure _
    | cons v rest ih => exact (Follows.onStack_allocates _).bind fun _ => ih
  apply (pushed args).bind
  intro _
  split
  · exact (callNative_allocates _ _).bind fun _ => (Follows.onStack_allocates _).bind fun _ => .pure _
  · exact (enterFunction_allocates _ _ _).bind fun _ => .pure _

/-- Only two kinds of instructions change objects. -/
theorem execute_allocates {i : Instruction} (noElement : ∀ kind, i.op ≠ .popArray kind)
    (noField : ∀ kind, i.op ≠ .popField kind) :
  Follows Allocates (execute i)
  := by
  have ends {x : MachineM Unit} (follows : Follows Allocates x) :
      Follows Allocates (x >>= fun _ => (Pure.pure none : MachineM (Option Value))) :=
    follows.bind fun _ => .pure _
  have stack {α : Type} {action : StackM α} {f : α → MachineM (Option Value)}
      (each : ∀ a, Follows Allocates (f a)) : Follows Allocates (onStack action >>= f) :=
    (Follows.onStack_allocates _).bind each
  have push (v : Value) :
      Follows Allocates (push v >>= fun _ => (Pure.pure none : MachineM (Option Value))) :=
    stack fun _ => .pure _
  have unary {f : Value → MachineM Value} (each : ∀ v, Follows Spares (f v)) :
      Follows Allocates (unary f) :=
    (Follows.onStack_allocates _).bind fun v => (each v).allocates.bind fun _ => .onStack_allocates _
  have binary {f : Value → Value → MachineM Value} (each : ∀ v w, Follows Spares (f v w)) :
      Follows Allocates (binary f) :=
    (Follows.onStack_allocates _).bind fun w => (Follows.onStack_allocates _).bind fun v =>
      (each v w).allocates.bind fun _ => .onStack_allocates _
  have literal {index : Nat} {select : Constant → Option (MachineM Value)}
      (selection : Instruction.Selection select) :
      Follows Allocates (pushConstant index select) := by
    rw [pushConstant_eq]
    exact (follows_literal selection index).allocates.bind fun _ => .onStack_allocates _
  have jumpIf (truth : Bool) (target : Nat) : Follows Allocates (jumpIf truth target) := by
    apply (Follows.onStack_allocates _).bind
    intro v
    split
    · exact .registers_allocates _
    · exact .pure _
  obtain ⟨pc, op, operand⟩ := i
  cases op with
  | pushInt => exact ends (literal .int)
  | pushDouble => exact ends (literal .double)
  | pushString => exact ends (literal .string)
  | pushStack kind => exact .get_bind fun _ => stack push
  | popStack kind => exact stack fun _ => .get_bind fun _ => ends (.onStack_allocates _)
  | pushStatic kind => exact (looks_getGlobal _).reads.follows.bind push
  | popStatic kind =>
    apply stack
    intro v
    apply ends
    intro m
    unfold setGlobal
    split
    · exact fun builtIn => ⟨builtIn, .refl _⟩
    · exact refl_of Allocates m
  | pushArray kind => exact stack fun _ => stack fun _ => (looks_arrayGet _ _).reads.follows.bind push
  | popArray kind => exact absurd rfl (noElement kind)
  | pushField kind => exact stack fun _ => (looks_getField _ _).reads.follows.bind push
  | popField kind => exact absurd rfl (noField kind)
  | arithInt op => exact ends (binary fun _ _ => (looks_arithInts _ _ _).reads.follows)
  | arithDouble op | compareInt op | compareDouble op => exact ends (binary fun _ _ => .pure _)
  | addString =>
    exact ends ((Follows.onStack_allocates _).bind fun _ => (Follows.onStack_allocates _).bind fun _ =>
      (looks_textOrNull _).reads.follows.bind fun _ => (looks_textOrNull _).reads.follows.bind fun _ =>
      (follows_newString _).allocates.bind fun _ => (Follows.onStack_allocates _).bind fun _ =>
      .onStack_allocates _)
  | minusInt | minusDouble | logicalNot => exact ends (unary fun _ => .pure _)
  | cast conversion => exact ends (unary fun _ => follows_convert _ _)
  | compareString op => exact ends (binary fun _ _ => (looks_compareStrings _ _ _).reads.follows)
  | eqObject | neObject =>
    exact ends ((Follows.onStack_allocates _).bind fun _ => (Follows.onStack_allocates _).bind fun _ =>
      .onStack_allocates _)
  | pop => exact ends ((Follows.onStack_allocates _).bind fun _ => .pure _)
  | duplicate => exact stack push
  | jump => exact ends (.registers_allocates _)
  | jumpIfTrue | jumpIfFalse => exact ends (jumpIf _ _)
  | pushMethod => exact stack fun _ => (looks_methodFunction _ _).reads.follows.bind fun _ => push _
  | invoke => exact (Follows.registers_allocates _).bind fun _ => ends invoke_allocates
  | ret =>
    exact (Follows.registers_allocates _).bind fun _ =>
      Law.follows_returnValue Follows.onStack_allocates Follows.registers_allocates
  | new => exact (follows_newInstance _).allocates.bind push
  | newArray kind => exact stack fun _ => (follows_newArray _ _).allocates.bind push
  | newArrayLiteral kind =>
    exact stack fun _ => (follows_allocate _).allocates.bind fun v => stack fun _ => push v
  | arraySize => exact ends (unary fun _ => ((looks_arrayLength _).reads.bind fun _ => .pure _).follows)
  | stringLength => exact ends (unary fun _ => ((looks_expectString _).reads.bind fun _ => .pure _).follows)
  | downCast => exact stack fun _ => ends (looks_downCast _ _).reads.follows
  | instanceOf =>
    exact ends (unary fun _ => ((looks_instanceOf _ _).reads.bind fun _ => .pure _).follows)
  | _ => exact push _

/-! ### Instructions that change an object -/

section

variable {α β : Type} {m : Machine}

/-- An action that does nothing to the heap comes first. -/
theorem heap_of_bind {P : Heap → Prop} {x : MachineM α} {f : α → MachineM β}
    (same : (stateOf (x m)).heap = m.heap) (unchanged : P m.heap)
    (each : ∀ a m₁, x m = .ok a m₁ → m₁.heap = m.heap → P (stateOf (f a m₁)).heap) :
  P (stateOf ((x >>= f) m)).heap
  := by
  rw [stateOf_bind]
  cases ran : x m with
  | ok a m₁ =>
    rw [ran] at same
    exact each a m₁ ran same
  | error trap m₁ =>
    rw [ran] at same
    dsimp only
    rwa [show m₁.heap = m.heap from same]

theorem heap_onStack (action : StackM α) (m : Machine) :
  (stateOf (onStack action m)).heap = m.heap
  := by
  rw [stateOf_onStack]
  rfl

theorem heap_of_reads {x : MachineM α} (reads : Reads x) (m : Machine) :
  (stateOf (x m)).heap = m.heap
  := by
  rw [reads m]

theorem heap_of_ok {x : MachineM α} {a : α} {m' : Machine} (same : (stateOf (x m)).heap = m.heap)
    (ran : x m = .ok a m') :
  m'.heap = m.heap
  := by
  rwa [ran] at same

theorem updateObject_eq {v : Value} {handle : Handle} (names : v.handle? = some handle)
    (f : Object → Object) (m : Machine) :
  updateObject v f m = .ok () (m.withHeap (m.heap.update handle f))
  := by
  unfold updateObject
  rw [names]
  exact modifyHeap_eq _ m

/-- An element of an array is overwritten, or nothing is. -/
theorem arraySet_writes {h : Heap} (same : m.heap = h) (array v : Value) (index : Int64) :
  (stateOf (arraySet array index v m)).heap = h
    ∨ h.WritesOne Object.ElementWritten (stateOf (arraySet array index v m)).heap
  := by
  subst same
  let P (h : Heap) : Prop := h = m.heap ∨ m.heap.WritesOne Object.ElementWritten h
  apply heap_of_bind (P := P) (heap_of_reads (looks_object array).reads m) (.inl rfl)
  intro o m₁ read _
  obtain ⟨rfl, handle, names, found⟩ := object_eq_ok read
  apply heap_of_bind (P := P) (heap_of_reads (looks_checkIndex index _).reads m₁) (.inl rfl)
  intro i m₂ checked _
  obtain ⟨rfl, inside⟩ := checkIndex_eq_ok checked
  rw [updateObject_eq names]
  right
  apply Heap.writesOne_update found
  cases array : o.arrayLength? with
  | none =>
    rw [array] at inside
    exact absurd inside (Nat.not_lt_zero i)
  | some length =>
    rw [array] at inside
    exact Object.elementWritten_setElement array inside v

/-- A field of an instance is overwritten, or nothing is. -/
theorem setField_writes {h : Heap} (same : m.heap = h) (target v : Value) (index : Nat) :
  (stateOf (setField target index v m)).heap = h
    ∨ h.WritesOne Object.FieldWritten (stateOf (setField target index v m)).heap
  := by
  subst same
  let P (h : Heap) : Prop := h = m.heap ∨ m.heap.WritesOne Object.FieldWritten h
  apply heap_of_bind (P := P) (heap_of_reads (looks_expectInstance target).reads m) (.inl rfl)
  intro found m₁ read _
  obtain ⟨rfl, handle, names, there⟩ := expectInstance_eq_ok read
  by_cases inside : index < found.2.size
  · simp only [if_pos inside]
    rw [updateObject_eq names]
    exact .inr (Heap.writesOne_update there (Object.fieldWritten_setField inside v))
  · simp only [if_neg inside]
    exact .inl rfl

theorem stateOf_bind_pure (x : MachineM α) (b : β) (m : Machine) :
  stateOf ((x >>= fun _ => (pure b : MachineM β)) m) = stateOf (x m)
  := by
  rw [stateOf_bind]
  cases x m with
  | ok a m₁ => rfl
  | error trap m₁ => rfl

/-- What a store into an array does to the heap. -/
theorem execute_popArray (pc : Nat) (kind : SlotKind) (operand : Option UInt16) (m : Machine) :
  (stateOf (execute ⟨pc, .popArray kind, operand⟩ m)).heap = m.heap
    ∨ m.heap.WritesOne Object.ElementWritten (stateOf (execute ⟨pc, .popArray kind, operand⟩ m)).heap
  := by
  let P (h : Heap) : Prop := h = m.heap ∨ m.heap.WritesOne Object.ElementWritten h
  apply heap_of_bind (P := P) (heap_onStack _ m) (.inl rfl)
  intro index m₁ _ same₁
  apply heap_of_bind (P := P) (heap_onStack _ m₁) (.inl same₁)
  intro array m₂ _ same₂
  apply heap_of_bind (P := P) (heap_onStack _ m₂) (.inl (same₂.trans same₁))
  intro v m₃ _ same₃
  rw [stateOf_bind_pure]
  exact arraySet_writes (same₃.trans (same₂.trans same₁)) array v index.toInt

/-- What a store into a field does to the heap. -/
theorem execute_popField (pc : Nat) (kind : SlotKind) (operand : Option UInt16) (m : Machine) :
  (stateOf (execute ⟨pc, .popField kind, operand⟩ m)).heap = m.heap
    ∨ m.heap.WritesOne Object.FieldWritten (stateOf (execute ⟨pc, .popField kind, operand⟩ m)).heap
  := by
  let P (h : Heap) : Prop := h = m.heap ∨ m.heap.WritesOne Object.FieldWritten h
  apply heap_of_bind (P := P) (heap_onStack _ m) (.inl rfl)
  intro target m₁ _ same₁
  apply heap_of_bind (P := P) (heap_onStack _ m₁) (.inl same₁)
  intro v m₂ _ same₂
  rw [stateOf_bind_pure]
  exact setField_writes (same₂.trans same₁) target v _

end

/-! ### Steps -/

namespace Machine

variable {m m' : Machine}

/-- What a step may do to the objects that there are when its instruction is fetched: nothing, or
what its instruction is for. -/
inductive Touches (m : Machine) (h h' : Heap) : Prop
  | nothing : h.Keeps h' → Touches m h h'
  | element {i : Instruction} {kind : SlotKind} :
      fetch m.code m.registers.pc = .ok i → i.op = .popArray kind →
      h.WritesOne Object.ElementWritten h' → Touches m h h'
  | field {i : Instruction} {kind : SlotKind} :
      fetch m.code m.registers.pc = .ok i → i.op = .popField kind →
      h.WritesOne Object.FieldWritten h' → Touches m h h'

theorem Touches.outline_eq {h h' : Heap} (touches : m.Touches h h') {slot : Nat} {o : Object}
    (found : h.objectAt slot = some o) :
  ∃ o', h'.objectAt slot = some o' ∧ o'.outline = o.outline
  := by
  have one {Written : Object → Object → Prop} (writes : h.WritesOne Written h')
      (kept : ∀ o o', Written o o' → o'.outline = o.outline) :
      ∃ o', h'.objectAt slot = some o' ∧ o'.outline = o.outline := by
    obtain ⟨slot', p, p', there, there', written, others⟩ := writes
    by_cases same : slot = slot'
    · subst same
      rw [there] at found
      cases found
      exact ⟨p', there', kept _ _ written⟩
    · exact ⟨o, by rw [others slot same, found], rfl⟩
  cases touches with
  | nothing keeps => exact ⟨o, keeps slot o found, rfl⟩
  | element _ _ writes =>
    apply one writes
    rintro o o' ⟨-, -, -, -, same, -⟩
    exact same
  | field _ _ writes => exact one writes fun _ _ written => written.outline_eq

/-- An instruction that has been fetched changes at most one element of one array or one field of one
instance. -/
theorem execute_touches (m' : Machine) {i : Instruction}
    (fetched : fetch m.code m.registers.pc = .ok i)
    (builtIn : m'.BuiltIn) (wf : m'.heap.WellFormed) :
  m.Touches m'.heap (stateOf (execute i m')).heap
  := by
  have same {h h' : Heap} (same : h' = h) : h.Keeps h' := by
    subst same
    exact fun _ _ found => found
  by_cases element : ∃ kind, i.op = .popArray kind
  · obtain ⟨kind, op⟩ := element
    obtain ⟨pc, _, operand⟩ := i
    subst op
    rcases execute_popArray pc kind operand m' with unchanged | writes
    · exact .nothing (same unchanged)
    · exact .element fetched rfl writes
  · by_cases field : ∃ kind, i.op = .popField kind
    · obtain ⟨kind, op⟩ := field
      obtain ⟨pc, _, operand⟩ := i
      subst op
      rcases execute_popField pc kind operand m' with unchanged | writes
      · exact .nothing (same unchanged)
      · exact .field fetched rfl writes
    · have allocates := execute_allocates (fun kind op => element ⟨kind, op⟩)
        (fun kind op => field ⟨kind, op⟩) m' builtIn
      exact .nothing (allocates.2 wf).2

theorem step_touches (builtIn : m.BuiltIn) (wf : m.heap.WellFormed) :
  m.Touches (stateOf (collectIfDue m)).heap (stateOf (step m)).heap
  := by
  have wf₁ := wellFormed_collectIfDue wf
  rcases stateOf_step m with same | ⟨m₁, i, due, fetched, same⟩
  · rw [same]
    exact .nothing fun _ _ found => found
  · rw [due] at wf₁
    rw [same, due]
    obtain ⟨host, rfl⟩ := eq_of_collectIfDue due
    exact execute_touches (({ m with host } : Machine).advanced i) fetched builtIn wf₁

end Machine

/-! ### New strings -/

/-- The instruction makes a string, for a literal, a concatenation or a conversion. -/
def Op.makesString : Op → Bool
  | .pushString | .addString => true
  | .cast conversion =>
    conversion = .booleanToString ∨ conversion = .intToString ∨ conversion = .doubleToString
  | _ => false

namespace Machine

variable {m m' : Machine} {v : Value} {text : String}

/-- The value on top of the stack refers to a string that was not in the heap before. -/
def TopsNewString (h : Heap) (m : Machine) : Prop :=
  ∃ slot text, h.Gains (.string text) slot m.heap ∧ peek 0 m = .ok (.ref (.ofIndex slot)) m

theorem peek_of_cell (used : 0 < m.stack.sp)
    (top : m.stack.cells[m.stack.sp - 1]? = some (.value v)) :
  peek 0 m = .ok v m
  := by
  apply onStack_of_ok
  have position : Stack.fromTop 0 m.stack = .ok (m.stack.sp - 1) m.stack := if_pos used
  rw [Stack.peek, bind_of_ok position, Stack.get, top]

theorem peek_of_push (pushed : push v m = .ok () m') :
  peek 0 m' = .ok v m' ∧ m'.heap = m.heap
  := by
  obtain ⟨s, ran, rfl⟩ := onStack_eq_ok pushed
  have pushed := Stack.pushCell_eq_ok ran
  refine ⟨peek_of_cell ?_ ?_, rfl⟩
  · change 0 < s.sp
    rw [pushed.sp_eq]
    exact Nat.succ_pos _
  · change s.cells[s.sp - 1]? = _
    rw [pushed.sp_eq]
    exact pushed.top

theorem peek_of_replaceTop (replaced : replaceTop v m = .ok () m') :
  peek 0 m' = .ok v m' ∧ m'.heap = m.heap
  := by
  obtain ⟨s, ran, rfl⟩ := onStack_eq_ok replaced
  obtain ⟨index, s₁, found, set⟩ := bind_eq_ok.1 ran
  obtain ⟨used, rfl, rfl⟩ := Stack.fromTop_eq_ok found
  obtain ⟨inside, rfl⟩ := Stack.set_eq_ok set
  exact ⟨peek_of_cell used (Array.getElem?_setIfInBounds_self_of_lt inside), rfl⟩

theorem newString_eq (text : String) (m : Machine) :
  newString text m
    = .ok (.ref (.ofIndex m.heap.nextIndex)) (m.withHeap (m.heap.alloc (.string text)).2)
  := by
  rw [newString, modifyHeap_eq, ← Heap.alloc_fst m.heap (.string text)]
  rfl

/-- What is left on top is the string that was made. -/
theorem topsNewString_of {h : Heap} (wf : h.WellFormed) {m₁ : Machine} (same : m.heap = h)
    (made : newString text m = .ok v m₁) (top : peek 0 m' = .ok v m') (heap : m'.heap = m₁.heap) :
  TopsNewString h m'
  := by
  subst same
  rw [newString_eq] at made
  cases made
  refine ⟨m.heap.nextIndex, text, ?_, top⟩
  rw [heap]
  exact wf.gains_alloc _

theorem concatenate_tops (wf : m.heap.WellFormed) (ran : concatenate m = .ok () m') :
  TopsNewString m.heap m'
  := by
  obtain ⟨rhs, m₁, ran₁, ran⟩ := bind_eq_ok.1 ran
  obtain ⟨lhs, m₂, ran₂, ran⟩ := bind_eq_ok.1 ran
  obtain ⟨left, m₃, ran₃, ran⟩ := bind_eq_ok.1 ran
  obtain ⟨right, m₄, ran₄, ran⟩ := bind_eq_ok.1 ran
  obtain ⟨joined, m₅, made, ran⟩ := bind_eq_ok.1 ran
  obtain ⟨_, m₆, shrunk, pushed⟩ := bind_eq_ok.1 ran
  have same₁ := heap_of_ok (heap_onStack _ m) ran₁
  have same₂ := heap_of_ok (heap_onStack _ m₁) ran₂
  have same₃ := heap_of_ok (heap_of_reads (looks_textOrNull lhs).reads m₂) ran₃
  have same₄ := heap_of_ok (heap_of_reads (looks_textOrNull rhs).reads m₃) ran₄
  have same₆ := heap_of_ok (heap_onStack _ m₅) shrunk
  obtain ⟨top, heap⟩ := peek_of_push pushed
  exact topsNewString_of wf (same₄.trans (same₃.trans (same₂.trans same₁))) made top
    (heap.trans same₆)

theorem unary_tops {f : Value → MachineM Value} (wf : m.heap.WellFormed)
    (makes : ∀ v, ∃ text, f v = newString text) (ran : unary f m = .ok () m') :
  TopsNewString m.heap m'
  := by
  obtain ⟨v, m₁, ran₁, ran⟩ := bind_eq_ok.1 ran
  obtain ⟨w, m₂, made, replaced⟩ := bind_eq_ok.1 ran
  have same := heap_of_ok (heap_onStack _ m) ran₁
  obtain ⟨text, makes⟩ := makes v
  rw [makes] at made
  obtain ⟨top, heap⟩ := peek_of_replaceTop replaced
  exact topsNewString_of wf same made top heap

theorem pushConstant_tops {index : Nat} (wf : m.heap.WellFormed)
    (ran : pushConstant index literalString? m = .ok () m') :
  TopsNewString m.heap m'
  := by
  rw [pushConstant, bind_of_ok (get_eq m)] at ran
  cases found : (m.exe.constants[index]?).bind literalString? with
  | none =>
    rw [found] at ran
    cases ran
  | some x =>
    rw [found] at ran
    obtain ⟨v, m₁, made, pushed⟩ := bind_eq_ok.1 ran
    obtain ⟨c, -, selected⟩ := Option.bind_eq_some_iff.1 found
    obtain ⟨top, heap⟩ := peek_of_push pushed
    cases c with
    | string text =>
      cases selected
      exact topsNewString_of wf rfl made top heap
    | int i | double d => cases selected

/-- A literal, a concatenation or a conversion leaves a new string on top. -/
theorem execute_tops {i : Instruction} (makes : i.op.makesString) (wf : m.heap.WellFormed)
    (ran : execute i m = .ok none m') :
  TopsNewString m.heap m'
  := by
  have first {x : MachineM Unit}
      (ran : (x >>= fun _ => (pure none : MachineM (Option Value))) m = .ok none m') :
      x m = .ok () m' := by
    obtain ⟨_, m₁, ran₁, done⟩ := bind_eq_ok.1 ran
    cases done
    exact ran₁
  obtain ⟨pc, op, operand⟩ := i
  cases op with
  | pushString => exact pushConstant_tops wf (first ran)
  | addString => exact concatenate_tops wf (first ran)
  | cast conversion =>
    apply unary_tops wf _ (first ran)
    intro v
    cases conversion with
    | booleanToString | intToString | doubleToString => exact ⟨_, rfl⟩
    | intToDouble | doubleToInt => cases makes
  | _ => cases makes

theorem step_tops {i : Instruction} (wf : m.heap.WellFormed)
    (fetched : fetch m.code m.registers.pc = .ok i) (makes : i.op.makesString)
    (ran : step m = .ok .running m') :
  TopsNewString (stateOf (collectIfDue m)).heap m'
  := by
  have wf₁ := wellFormed_collectIfDue wf
  obtain ⟨m₁, i', due, fetched', executed⟩ := step_eq_ok_running ran
  rw [due] at wf₁
  rw [due]
  obtain ⟨host, rfl⟩ := eq_of_collectIfDue due
  rw [show fetch m.code m.registers.pc = .ok i' from fetched'] at fetched
  cases fetched
  have wf₂ : (({ m with host } : Machine).advanced i).heap.WellFormed := wf₁
  have tops := execute_tops makes wf₂ executed
  exact tops

end Machine

/-! ### At all times -/

/-- The registry has built-in procedures only. -/
def Registry.IsBuiltIn (registry : Registry) : Prop :=
  ∀ native ∈ registry.natives, native ∈ Registry.defaults.natives

namespace Machine

variable {m m' start : Machine} {Kept : Heap → Prop}

theorem BuiltIn.of_evolves (builtIn : start.BuiltIn) (evolves : Evolves Registry.IsBuiltIn Kept start m) :
  m.BuiltIn
  := evolves.invariant builtIn (fun _ _ same builtIn => builtIn.of_same same)
    fun _ _ listed builtIn => link_bound builtIn listed

theorem Accounts.of_evolves {config : Config} (accounts : start.Accounts config)
    (builtIn : start.BuiltIn) (evolves : Evolves Registry.IsBuiltIn Kept start m) :
  m.Accounts config
  := by
  have operated : Operated start m := by
    apply evolves.follows Operated.law
    · exact fun _ _ orderly => ⟨orderly, .refl⟩
    · exact fun _ _ listed => .link _ fun native there =>
        (Native.benign_of_mem_defaults (listed native there)).usesHeap
  have orderly : start.Orderly := fun index native bound =>
    (Native.benign_of_mem_defaults (builtIn index native bound)).usesHeap
  exact .of_operations (operated orderly).2 accounts

theorem objectAt_of_collect {slot : Nat} {o : Object}
    (found : (stateOf (collect m)).heap.objectAt slot = some o) :
  m.heap.objectAt slot = some o
  := by
  rw [heap_stateOf_collect, Heap.collect_eq] at found
  split at found
  · exact Heap.objectAt_of_reclaim found
  · exact Heap.objectAt_of_reclaim found

theorem objectAt_of_collectIfDue {slot : Nat} {o : Object}
    (found : (stateOf (collectIfDue m)).heap.objectAt slot = some o) :
  m.heap.objectAt slot = some o
  := by
  rw [collectIfDue_eq] at found
  split at found
  · rw [stateOf_bind_pure] at found
    exact objectAt_of_collect found
  · exact found

/-- An object that no collection takes away keeps its outline. -/
theorem Evolves.outline_eq {config : Config} (accounts : start.Accounts config)
    (builtIn : start.BuiltIn) {slot : Nat} {o : Object} (found : start.heap.objectAt slot = some o)
    (evolves : Evolves Registry.IsBuiltIn (fun h => (h.objectAt slot).isSome) start m) :
  ∃ o', m.heap.objectAt slot = some o' ∧ o'.outline = o.outline
  := by
  induction evolves with
  | refl => exact ⟨o, found, rfl⟩
  | @step m before kept ih =>
    obtain ⟨o', there, same⟩ := ih
    have touches := step_touches (builtIn.of_evolves before)
      (accounts.of_evolves builtIn before).wellFormed
    obtain ⟨left, there'⟩ := Option.isSome_iff_exists.1 kept
    rw [objectAt_of_collectIfDue there'] at there
    cases there
    obtain ⟨o'', there'', same'⟩ := touches.outline_eq there'
    exact ⟨o'', there'', same'.trans same⟩
  | restart _ ih | leave _ _ ih | link _ _ ih => exact ih
  | @enter m index f args before ih =>
    obtain ⟨o', there, same⟩ := ih
    have allocates := beginCall_allocates index f args m (builtIn.of_evolves before)
    have kept := (allocates.2 (accounts.of_evolves builtIn before).wellFormed).2
    exact ⟨o', kept slot o' there, same⟩
  | @collect m before kept ih =>
    obtain ⟨o', there, same⟩ := ih
    obtain ⟨left, there'⟩ := Option.isSome_iff_exists.1 kept
    rw [objectAt_of_collect there'] at there
    cases there
    exact ⟨o', there', same⟩
  | @newString m text before ih =>
    obtain ⟨o', there, same⟩ := ih
    have spares := follows_newString text m
    have kept := (spares.heap (accounts.of_evolves builtIn before).wellFormed).2
    exact ⟨o', kept slot o' there, same⟩

/-- Whatever has become of a machine with built-in native functions, an object that no collection
takes away keeps its kind, and with it its text, its length, or its class and its number of fields.
One instruction writes at most one element of one array or one field of one instance. A literal, a
concatenation or a conversion leaves a new string on top, whose handle was not in use. -/
theorem objects_keep_outline {exe : Executable} {config : Config} {clock : Int64}
    (made : new? exe config clock = some start)
    (evolves : Evolves Registry.IsBuiltIn (fun _ => True) start m) :
  (∀ slot o m', m.heap.objectAt slot = some o →
      Evolves Registry.IsBuiltIn (fun h => (h.objectAt slot).isSome) m m' →
      ∃ o', m'.heap.objectAt slot = some o' ∧ o'.outline = o.outline)
    ∧ m.Touches (stateOf (collectIfDue m)).heap (stateOf (step m)).heap
    ∧ ∀ i m', fetch m.code m.registers.pc = .ok i → i.op.makesString → step m = .ok .running m' →
      ∃ slot text, (stateOf (collectIfDue m)).heap.Gains (.string text) slot m'.heap
        ∧ peek 0 m' = .ok (.ref (.ofIndex slot)) m'
        ∧ (slot < 2 ^ 32 → (stateOf (collectIfDue m)).heap.contains (.ofIndex slot) = false
          ∧ m'.heap.get? (.ofIndex slot) = some (.string text))
  := by
  have unbound : start.BuiltIn := by
    obtain ⟨stack, -, rfl⟩ := Option.map_eq_some_iff.1 made
    intro index native bound
    rw [natives_ofStack] at bound
    cases bound
  have builtIn := unbound.of_evolves evolves
  have accounts := (accounts_of_new? made).2.of_evolves unbound evolves
  refine ⟨?_, step_touches builtIn accounts.wellFormed, ?_⟩
  · intro slot o m' found later
    exact later.outline_eq accounts builtIn found
  · intro i m' fetched makes ran
    obtain ⟨slot, text, gains, top⟩ := step_tops accounts.wellFormed fetched makes ran
    exact ⟨slot, text, gains, top, gains.named⟩

/-- Code that stores an integer into a new array, and then pushes a string. -/
def storingExecutable : Executable where
  constants := #[.string "a"]
  topLevel := ⟨#[0, 7, 0, 2, 81, 0, 1, 23, 6, 0, 0], #[⟨0, 0, 11⟩]⟩

def storingConfig : Config := { initialStackSize := 4, maxStackSize := 8 }

def storingMachine : Machine := ofStack storingExecutable storingConfig 0 (Stack.new 4 8)

/-- After so many instructions. -/
def storingAfter (count : Nat) : Machine := (resume count storingMachine.restart).2

/-- The store writes one element of the array, which keeps its length; the string is a new object
besides the array. -/
theorem objects_keep_outline_storing :
  (storingAfter 4).heap.objectAt 0 = some (.ints #[0, 0])
    ∧ (storingAfter 5).heap.objectAt 0 = some (.ints #[0, 7])
    ∧ (storingAfter 4).Touches (stateOf (collectIfDue (storingAfter 4))).heap (storingAfter 5).heap
    ∧ (∃ o, (storingAfter 5).heap.objectAt 0 = some o ∧ o.outline = .ints 2)
    ∧ ∃ slot text, (storingAfter 5).heap.Gains (.string text) slot (storingAfter 6).heap
  := by
  have made : new? storingExecutable storingConfig 0 = some storingMachine := rfl
  have evolves (count : Nat) :
      Evolves Registry.IsBuiltIn (fun _ => True) storingMachine (storingAfter count) :=
    (Evolves.restart .refl).resume count
  have array : (storingAfter 4).heap.objectAt 0 = some (.ints #[0, 0]) := by cbv
  have stores : step (storingAfter 4) = .ok .running (storingAfter 5) := by cbv
  have pushes : step (storingAfter 5) = .ok .running (storingAfter 6) := by cbv
  have unchanged : collectIfDue (storingAfter 5) = .ok () (storingAfter 5) := by cbv
  have left : ((stateOf (collectIfDue (storingAfter 4))).heap.objectAt 0).isSome := by cbv
  have fetched : fetch (storingAfter 5).code (storingAfter 5).registers.pc
      = .ok ⟨8, .pushString, some 0⟩ := by cbv
  obtain ⟨kept, touches, -⟩ := objects_keep_outline made (evolves 4)
  obtain ⟨-, -, strings⟩ := objects_keep_outline made (evolves 5)
  obtain ⟨slot, text, gains, -, -⟩ := strings _ _ fetched rfl pushes
  rw [unchanged] at gains
  rw [stores] at touches
  have later := kept 0 _ _ array (.step .refl left)
  rw [stores] at later
  exact ⟨array, by cbv, touches, later, slot, text, gains⟩

end Machine

end Bytecode
