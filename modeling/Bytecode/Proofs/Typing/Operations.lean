import Mathlib
import Bytecode.Proofs.Machine.Guarded
import Bytecode.Proofs.Typing.Plan
import Bytecode.Proofs.Typing.Values

/-!
# Types in plain instructions

A machine is `TypedBy` a heap typing when its heap is and its globals are of their declared types.
`Retypes` says of the outcome of an action that the machine is then typed by a typing that agrees
with the one before on all objects that were there, whether the action has failed or not, and that a
result satisfies a condition.

What a plain instruction computes from operands of the types of a plan leaves operands of the types
of the plan that it moves to, `Moves.retypes_compute`.
-/

namespace Bytecode

open Machine
open List (Forall₂)

/-! ### Actions that change nothing -/

/-- The action changes nothing, and what it yields satisfies a condition. -/
def Observes {α : Type} (P : α → Prop) (x : MachineM α) : Prop :=
  ∀ m, stateOf (x m) = m ∧ ∀ a m', x m = .ok a m' → P a

namespace Observes

variable {α β : Type} {P : α → Prop} {Q : β → Prop} {x : MachineM α}

theorem pure {a : α} (holds : P a) :
  Observes P (Pure.pure a : MachineM α)
  := by
  intro m
  refine ⟨rfl, ?_⟩
  intro a' m' same
  cases same
  exact holds

theorem throw (trap : Trap) :
  Observes P (MonadExcept.throw trap : MachineM α)
  := fun _ => ⟨rfl, nofun⟩

theorem bind {f : α → MachineM β} (first : Observes P x) (second : ∀ a, P a → Observes Q (f a)) :
  Observes Q (x >>= f)
  := by
  intro m
  obtain ⟨same, holds⟩ := first m
  cases run : x m with
  | ok a m₁ =>
    rw [run] at same holds
    obtain rfl : m₁ = m := same
    rw [bind_of_ok run]
    exact second a (holds a _ rfl) _
  | error trap m₁ =>
    rw [run] at same
    rw [bind_of_error run]
    exact ⟨same, nofun⟩

theorem get_bind {f : Machine → MachineM β} (each : ∀ m, Observes Q (f m)) :
  Observes Q (get >>= f)
  := fun m => each m m

end Observes

/-- The action yields a word. -/
abbrev YieldsWord (x : MachineM Value) : Prop := Observes (fun v => v.handle? = none) x

theorem Looks.observes {α : Type} {x : MachineM α} (looks : Looks x) :
  Observes (fun _ => True) x
  := fun m => ⟨looks.reads m, fun _ _ _ => trivial⟩

theorem yieldsWord_compareStrings (op : Comparison) (v w : Value) :
  YieldsWord (compareStrings op v w)
  := by
  cases op with
  | eq | ne => exact (looks_sameString v w).observes.bind fun _ _ => .pure rfl
  | _ =>
    exact (looks_expectString v).observes.bind fun _ _ =>
      (looks_expectString w).observes.bind fun _ _ => .pure rfl

theorem yieldsWord_arithInts (op : ArithOp) (lhs rhs : Value) :
  YieldsWord (arithInts op lhs rhs)
  := by
  unfold arithInts
  cases op.onInts lhs.toInt rhs.toInt with
  | ok i => exact .pure rfl
  | error f => exact .throw _

theorem yieldsWord_literal {index : Nat} {select : Constant → Option (MachineM Value)}
    (each : ∀ c x, select c = some x → YieldsWord x) :
  YieldsWord (Instruction.compute.literal index select)
  := by
  apply Observes.get_bind
  intro m
  cases found : (m.exe.constants[index]?).bind select with
  | none => exact .throw _
  | some x =>
    obtain ⟨c, -, selected⟩ := Option.bind_eq_some_iff.1 found
    exact each c x selected

/-! ### Typed machines -/

/-- The objects and the globals of the machine are of their types. -/
structure Machine.TypedBy (types : HeapTyping) (m : Machine) : Prop where
  heap : m.heap.TypedBy m.exe types
  globals : ∀ (k : Nat) v decl, m.globals[k]? = some v → m.exe.globals[k]? = some decl →
    v.HasType m.exe types decl.ty

/-- What has come of an action of a typed machine. -/
def Retypes {α : Type} (Q : HeapTyping → α → Prop) (types : HeapTyping) (m : Machine)
    (r : EStateM.Result Trap Machine α) : Prop :=
  (stateOf r).heap.Small → ∃ types', types.Agrees m.heap types' ∧ (stateOf r).TypedBy types'
    ∧ ∀ a m', r = .ok a m' → Q types' a

namespace Retypes

variable {α β : Type} {Q : HeapTyping → α → Prop} {R : HeapTyping → β → Prop} {types : HeapTyping}
  {m : Machine} {x : MachineM α}

variable (typed : m.TypedBy types)
include typed

theorem of_same {r : EStateM.Result Trap Machine α} (same : stateOf r = m)
    (result : ∀ a m', r = .ok a m' → Q types a) :
  Retypes Q types m r
  := fun _ => ⟨types, .refl _ _, same.symm ▸ typed, result⟩

theorem of_ok {a : α} (holds : Q types a) :
  Retypes Q types m (.ok a m)
  := by
  apply of_same typed rfl
  intro a' m' same
  cases same
  exact holds

theorem of_error (trap : Trap) :
  Retypes Q types m (.error trap m)
  := .of_same typed rfl nofun

theorem of_observes {P : α → Prop} (observes : Observes P x)
    (holds : ∀ a, P a → Q types a) :
  Retypes Q types m (x m)
  := .of_same typed (observes m).1 fun a m' run => holds a ((observes m).2 a m' run)

omit typed in
theorem map {f : α → β} (first : Retypes Q types m (x m))
    (each : ∀ types' a, types.Agrees m.heap types' → Q types' a → R types' (f a)) :
  Retypes R types m ((f <$> x) m)
  := by
  rw [map_eq_pure_bind]
  cases run : x m with
  | ok a m₁ =>
    rw [run] at first
    rw [bind_of_ok run]
    intro small
    obtain ⟨types', agrees, typed, result⟩ := first small
    refine ⟨types', agrees, typed, ?_⟩
    intro b m' same
    cases same
    exact each types' a agrees (result a m₁ rfl)
  | error trap m₁ =>
    rw [run] at first
    rw [bind_of_error run]
    intro small
    obtain ⟨types', agrees, typed, -⟩ := first small
    exact ⟨types', agrees, typed, nofun⟩

/-- An action after another one that changes nothing. -/
theorem bind {f : α → MachineM β} (reads : Reads x)
    (second : ∀ a, x m = .ok a m → Retypes R types m (f a m)) :
  Retypes R types m ((x >>= f) m)
  := by
  have same := reads m
  cases run : x m with
  | ok a m₁ =>
    rw [run] at same
    obtain rfl : m₁ = m := same
    rw [bind_of_ok run]
    exact second a run
  | error trap m₁ =>
    rw [run] at same
    rw [bind_of_error run]
    exact .of_same typed same nofun

/-- A change of the heap. -/
theorem modifyHeap (small : m.heap.Small) (secure : m.Secure) {f : Heap → α × Heap}
    (made : (f m.heap).2.Small → ∃ types', types.Agrees m.heap types'
      ∧ (f m.heap).2.TypedBy m.exe types' ∧ Q types' (f m.heap).1) :
  Retypes Q types m (Machine.modifyHeap f m)
  := by
  rw [modifyHeap_eq]
  intro small'
  obtain ⟨types', agrees, heap, holds⟩ := made small'
  refine ⟨types', agrees, ⟨heap, ?_⟩, ?_⟩
  · intro k v decl found declared
    exact (typed.globals k v decl found declared).agrees (secure.globals small k v found) agrees
  · intro a m' same
    cases same
    exact holds

end Retypes

/-! ### Objects -/

section

variable {types : HeapTyping} {m : Machine} {v w : Value} {ty element : Ty}
variable {index : Nat} {object : Ty}

variable (typed : m.TypedBy types) (small : m.heap.Small) (secure : m.Secure)
include typed

section

include small secure

theorem retypes_allocate {o : Object} (intact : o.Intact m.heap) (object : ty.isObject = true)
    (conforms : o.Conforms m.exe types ty) :
  Retypes (fun types' r => r.HasType m.exe types' ty) types m (allocate o m)
  := by
  apply Retypes.modifyHeap typed small secure
  intro small'
  obtain ⟨types', agrees, heap, same⟩ := typed.heap.alloc secure.sound small' intact object conforms
  exact ⟨types', agrees, heap, .ref same⟩

theorem retypes_newString (text : String) :
  Retypes (fun types' r => r.HasType m.exe types' .string) types m (newString text m)
  := retypes_allocate typed small secure (o := .string text) trivial rfl rfl

/-- An instance of a class has the default values of its fields. -/
theorem retypes_newInstance (index : UInt16) :
  Retypes (fun types' r => r.HasType m.exe types' (.class index)) types m
    (newInstance index.toNat m)
  := by
  rw [newInstance_eq]
  cases found : m.exe.classes[index.toNat]? with
  | none => exact .of_error typed _
  | some c =>
    apply Retypes.modifyHeap typed small secure
    intro small'
    have sound := (secure.sound.defaultValues (c.fields.map (·.ty))).1
    have grows := (secure.sound.defaultValues (c.fields.map (·.ty))).2.1
    have grows' := sound.wellFormed.grows_alloc
      (.inst index.toNat.toUInt16 (m.heap.defaultValues (c.fields.map (·.ty))).1.toArray)
    have small₁ := grows'.small small'
    obtain ⟨types₁, agrees₁, heap₁, fields⟩ :=
      typed.heap.defaultValues secure.sound (c.fields.map (·.ty)) small₁
    have intact := intact_instance secure index.toNat_lt found rfl small₁
    have same : index.toNat.toUInt16 = index := by simp
    have conforms : (Object.inst index.toNat.toUInt16
        (m.heap.defaultValues (c.fields.map (·.ty))).1.toArray).Conforms m.exe types₁
        (.class index) := by
      rw [same]
      refine ⟨rfl, ?_⟩
      intro i r fieldTy there declared
      rw [List.getElem?_toArray] at there
      obtain ⟨ty, listed, typed'⟩ := exists_of_forall₂_getElem? fields there
      rw [Executable.fieldTy?, Executable.classOf?, Ty.classIndex?, Option.bind_some, found,
        Option.bind_some, ← List.getElem?_map, listed] at declared
      cases declared
      exact typed'
    obtain ⟨types₂, agrees₂, heap₂, named⟩ := heap₁.alloc sound small' intact rfl conforms
    exact ⟨types₂, agrees₁.trans grows agrees₂, heap₂, .ref named⟩

theorem retypes_updateObject {f : Object → Object}
    (keeps : ∀ handle o, v.handle? = some handle → m.heap.get? handle = some o → o.Conforms m.exe types (types.ty handle) → (f o).Conforms m.exe types (types.ty handle)) :
  Retypes (fun _ _ => True) types m (updateObject v f m)
  := by
  unfold updateObject
  cases refers : v.handle? with
  | none => exact .of_error typed _
  | some handle =>
    apply Retypes.modifyHeap typed small secure
    intro _
    exact ⟨types, .refl _ _, typed.heap.update fun o found => keeps handle o refers found, trivial⟩

end

/-! ### Arrays -/

theorem retypes_arrayGet (array : v.HasType m.exe types (.array element)) (index : Int64) :
  Retypes (fun types' r => r.HasType m.exe types' element) types m (arrayGet v index m)
  := by
  apply Retypes.bind typed (looks_object v).reads
  intro o found
  apply Retypes.bind typed (looks_checkIndex _ _).reads
  intro i _
  cases there : o.element? i with
  | none => exact .of_error typed _
  | some r =>
    apply Retypes.of_ok typed
    obtain ⟨-, handle, refers, holds⟩ := object_eq_ok found
    have conforms := typed.heap handle o holds
    rw [(array.object handle refers).of_array] at conforms
    exact conforms.element there

include small secure in
theorem retypes_arraySet (array : v.HasType m.exe types (.array element))
    (value : w.HasType m.exe types element) (index : Int64) :
  Retypes (fun _ _ => True) types m (arraySet v index w m)
  := by
  apply Retypes.bind typed (looks_object v).reads
  intro o _
  apply Retypes.bind typed (looks_checkIndex _ _).reads
  intro i _
  apply retypes_updateObject typed small secure
  intro handle o' refers _ conforms
  rw [(array.object handle refers).of_array] at conforms ⊢
  exact conforms.setElement value i

include small secure in
theorem retypes_newArray (element : Ty) (size : Int64) :
  Retypes (fun types' r => r.HasType m.exe types' (.array element)) types m
    (newArray element.slotKind size m)
  := by
  unfold newArray
  split
  · exact .of_error typed _
  · split
    · exact .of_error typed _
    · exact retypes_allocate typed small secure (Object.intact_zeroArray _ _) rfl
        (Object.conforms_zeroArray element _)

/-! ### Instances -/

section

variable (instance_ : v.HasType m.exe types object)
include instance_

/-- What an instance is known to be: its class is below the type of the value. -/
theorem class_of_isInstance {index : UInt16} {fields : Array Value}
    (found : IsInstance v index fields m) :
  (∃ handle, v.handle? = some handle ∧ types.ty handle = .class index)
    ∧ m.exe.Below (.class index) object
    ∧ ∀ (i : Nat) r fieldTy, fields[i]? = some r → m.exe.fieldTy? (.class index) i = some fieldTy →
      r.HasType m.exe types fieldTy
  := by
  obtain ⟨handle, refers, holds⟩ := found
  obtain ⟨same, each⟩ := typed.heap handle _ holds
  refine ⟨⟨handle, refers, same⟩, ?_, each⟩
  rw [← same]
  exact instance_.object handle refers

omit instance_ in
theorem retypes_expectInstance {α : Type} {Q : HeapTyping → α → Prop}
    {f : UInt16 × Array Value → MachineM α}
    (each : ∀ class_ fields, IsInstance v class_ fields m → Retypes Q types m (f (class_, fields) m)) :
  Retypes Q types m ((expectInstance v >>= f) m)
  := by
  apply Retypes.bind typed (looks_expectInstance v).reads
  rintro ⟨class_, fields⟩ found
  exact each class_ fields (expectInstance_eq_ok found).2

theorem retypes_getField {p : Program} (compiled : CompiledFrom p m.exe)
    (declared : m.exe.fieldTy? object index = some ty) :
  Retypes (fun types' r => r.HasType m.exe types' ty) types m (getField v index m)
  := by
  apply retypes_expectInstance typed
  intro class_ fields isInstance
  obtain ⟨-, below, each⟩ := class_of_isInstance typed instance_ isInstance
  dsimp only
  cases there : fields[index]? with
  | none => exact .of_error typed _
  | some r => exact .of_ok typed (each index r ty there (below.fieldTy? compiled declared))

include small secure in
theorem retypes_setField {p : Program} (compiled : CompiledFrom p m.exe)
    (declared : m.exe.fieldTy? object index = some ty) (value : w.HasType m.exe types ty) :
  Retypes (fun _ _ => True) types m (setField v index w m)
  := by
  apply retypes_expectInstance typed
  intro class_ fields isInstance
  obtain ⟨-, below, -⟩ := class_of_isInstance typed instance_ isInstance
  dsimp only
  split
  · apply retypes_updateObject typed small secure
    intro handle o refers holds conforms
    obtain rfl : o = .inst class_ fields :=
      RefersTo.unique (v := v) ⟨handle, refers, holds⟩ isInstance
    apply conforms.setField
    intro fieldTy declared'
    rw [below.fieldTy? compiled declared] at declared'
    cases declared'
    exact value
  · exact .of_error typed _

/-- The function that is found for a method slot of an object. -/
def FindsMethod (exe : Executable) (types : HeapTyping) (v : Value) (slot : Nat) (w : Value) :
    Prop :=
  ∃ handle index method, v.handle? = some handle ∧ types.ty handle = .class index
    ∧ ((exe.classes[index.toNat]?).bind fun c => c.methods[slot]?) = some method
    ∧ w = .ofNat method.function.toNat

theorem retypes_methodFunction (slot : Nat) :
  Retypes
    (fun types' (function : UInt16) => FindsMethod m.exe types' v slot (.ofNat function.toNat))
    types m (methodFunction v slot m)
  := by
  apply retypes_expectInstance typed
  intro class_ fields isInstance
  obtain ⟨⟨handle, refers, same⟩, -, -⟩ := class_of_isInstance typed instance_ isInstance
  dsimp only
  rw [bind_of_ok (get_eq m)]
  cases there : (m.exe.classes[class_.toNat]?).bind fun c => c.methods[slot]? with
  | none => exact .of_error typed _
  | some method => exact .of_ok typed ⟨handle, class_, method, refers, same, there, rfl⟩

theorem retypes_downCast (target : UInt16) :
  Retypes (fun types' _ => v.HasType m.exe types' (.class target)) types m (downCast v target m)
  := by
  unfold downCast
  split
  · next null =>
      apply Retypes.of_ok typed
      cases v with
      | null => exact .of_plain rfl rfl
      | word bits | ref handle => cases null
  · apply retypes_expectInstance typed
    intro class_ fields isInstance
    obtain ⟨⟨handle, refers, same⟩, -, -⟩ := class_of_isInstance typed instance_ isInstance
    dsimp only
    rw [bind_of_ok (get_eq m)]
    split
    · exact .of_error typed _
    · next subclass =>
        apply Retypes.of_ok typed
        refine ⟨?_, nofun⟩
        intro handle' refers'
        rw [refers] at refers'
        cases refers'
        rw [same]
        have reaches : m.exe.isSubclass class_ target = true := by simpa using subclass
        exact Executable.below_of_reaches reaches

end

/-! ### Globals -/

theorem retypes_getGlobal {decl : VariableDecl}
    (declared : m.exe.globals[index]? = some decl) :
  Retypes (fun types' r => r.HasType m.exe types' decl.ty) types m (getGlobal index m)
  := by
  unfold getGlobal
  cases found : m.globals[index]? with
  | none => exact .of_error typed _
  | some r => exact .of_ok typed (typed.globals index r decl found declared)

theorem retypes_setGlobal {decl : VariableDecl}
    (declared : m.exe.globals[index]? = some decl) (value : v.HasType m.exe types decl.ty) :
  Retypes (fun _ _ => True) types m (setGlobal index v m)
  := by
  unfold setGlobal
  split
  · intro _
    refine ⟨types, .refl _ _, ⟨typed.heap, ?_⟩, fun _ _ _ => trivial⟩
    intro k w decl' found declared'
    change (m.globals.setIfInBounds index v)[k]? = some w at found
    rw [Array.getElem?_setIfInBounds] at found
    split at found
    · next same =>
        subst same
        cases found
        cases declared.symm.trans declared'
        exact value
    · exact typed.globals k w decl' found declared'
  · exact .of_error typed _

end

/-! ### Operands -/

/-- The operands are as the plan says. -/
def Plan.Holds (exe : Executable) (types : HeapTyping) : Plan → List Value → Prop
  | .plain tys, vs => HaveTypes exe types tys vs
  | .dispatch tys slot, vs => ∃ us v w, vs = us ++ [v, w] ∧ HaveTypes exe types tys (us ++ [v])
      ∧ FindsMethod exe types v slot w

/-- The types of the operands on top. -/
theorem HaveTypes.split {exe : Executable} {types : HeapTyping} {tys tys' : List Ty}
    {us ws : List Value} (typed : HaveTypes exe types (tys ++ tys') (us ++ ws))
    (count : tys'.length = ws.length) :
  HaveTypes exe types tys us ∧ HaveTypes exe types tys' ws
  := by
  have length := typed.length_eq
  rw [List.length_append, List.length_append] at length
  have lower := List.forall₂_take_append _ _ _ typed
  have upper := List.forall₂_drop_append _ _ _ typed
  rw [show us.length = tys.length by omega] at lower upper
  rw [List.take_left] at lower
  rw [List.drop_left] at upper
  exact ⟨lower, upper⟩

namespace Retypes

variable {types : HeapTyping} {m : Machine} {tys : List Ty} {ty ty' : Ty} {us : List Value}

/-- A value is put on top of others. -/
theorem pushed {x : MachineM Value}
    (first : Retypes (fun types' r => r.HasType m.exe types' ty) types m (x m))
    (fits : m.exe.Fits ty ty') (below : HaveTypes m.exe types tys us)
    (live : ∀ v ∈ us, v.Live m.heap) :
  Retypes (fun types' result => HaveTypes m.exe types' (tys ++ [ty']) (us ++ result.toList)) types m
    ((some <$> x) m)
  := by
  apply first.map
  intro types' r agrees typed
  exact List.rel_append (below.agrees live agrees) (.cons (typed.fits fits) .nil)

theorem stored {x : MachineM Unit} (first : Retypes (fun _ _ => True) types m (x m))
    (below : HaveTypes m.exe types tys us) (live : ∀ v ∈ us, v.Live m.heap) :
  Retypes (fun types' (result : Option Value) => HaveTypes m.exe types' tys (us ++ result.toList))
    types m (((fun _ => none) <$> x) m)
  := by
  apply first.map
  intro types' r agrees _
  change HaveTypes m.exe types' tys (us ++ [])
  rw [List.append_nil]
  exact below.agrees live agrees

end Retypes

/-! ### Plain instructions -/

namespace Instruction

variable {types : HeapTyping} {m : Machine} {i : Instruction} {made : Ty} {ws : List Value}

theorem drops_eq_reads (makes : i.op.makes? = some made) :
  i.early + i.late = i.reads
  := by
  obtain ⟨pc, op, operand⟩ := i
  cases op with
  | _ => first | rfl | cases makes

theorem retypes_literalString (typed : m.TypedBy types) (small : m.heap.Small) (secure : m.Secure)
    (index : Nat) :
  Retypes (fun types' r => r.HasType m.exe types' .string) types m
    (compute.literal index literalString? m)
  := by
  rw [compute.literal, bind_of_ok (get_eq m)]
  cases found : (m.exe.constants[index]?).bind literalString? with
  | none => exact .of_error typed _
  | some x =>
    obtain ⟨c, -, selected⟩ := Option.bind_eq_some_iff.1 found
    cases c
    all_goals cases selected
    exact retypes_newString typed small secure _

/-- What an instruction makes of its operands that makes a number, a truth value or a string. -/
theorem retypes_make (makes : i.op.makes? = some made) (typed : m.TypedBy types)
    (small : m.heap.Small) (secure : m.Secure) (ws : List Value) :
  ∃ x, i.compute ws = some <$> x
    ∧ Retypes (fun types' r => r.HasType m.exe types' made) types m (x m)
  := by
  have word {x : MachineM Value} (yields : YieldsWord x) :
      Retypes (fun types' r => r.HasType m.exe types' .int) types m (x m) :=
    .of_observes typed yields fun _ plain => .of_plain plain rfl
  obtain ⟨pc, op, operand⟩ := i
  cases op with
  | pushInt | pushDouble =>
    cases makes
    refine ⟨_, rfl, word (yieldsWord_literal ?_)⟩
    intro c x selected
    cases c
    all_goals cases selected
    exact .pure rfl
  | pushString =>
    cases makes
    exact ⟨_, rfl, retypes_literalString typed small secure _⟩
  | arithInt op =>
    cases makes
    exact ⟨_, rfl, word (yieldsWord_arithInts op _ _)⟩
  | addString =>
    cases makes
    refine ⟨do newString ((← textOrNull (ws.getD 0 .zero)) ++ (← textOrNull (ws.getD 1 .zero))), ?_, ?_⟩
    · simp only [compute, map_eq_pure_bind, bind_assoc]
    · apply Retypes.bind typed (looks_textOrNull _).reads
      intro a _
      apply Retypes.bind typed (looks_textOrNull _).reads
      intro b _
      exact retypes_newString typed small secure _
  | cast conversion =>
    cases makes
    refine ⟨_, rfl, ?_⟩
    cases conversion with
    | intToDouble | doubleToInt => exact .of_ok typed (.of_plain rfl rfl)
    | _ => exact retypes_newString typed small secure _
  | compareString op =>
    cases makes
    exact ⟨_, rfl, word (yieldsWord_compareStrings op _ _)⟩
  | arraySize =>
    cases makes
    exact ⟨_, rfl, word ((looks_arrayLength _).observes.bind fun _ _ => .pure rfl)⟩
  | stringLength =>
    cases makes
    exact ⟨_, rfl, word ((looks_expectString _).observes.bind fun _ _ => .pure rfl)⟩
  | instanceOf =>
    cases makes
    exact ⟨_, rfl, word ((looks_instanceOf _ _).observes.bind fun _ _ => .pure rfl)⟩
  | pushInt1Byte | pushInt2Byte | pushDouble0 | pushDouble1 | arithDouble | minusInt | minusDouble
  | compareInt | compareDouble | eqObject | neObject | logicalNot =>
    cases makes
    exact ⟨pure _, rfl, word (.pure rfl)⟩
  | _ => cases makes

end Instruction

theorem Instruction.number_lt (i : Instruction) :
  i.number < 2 ^ 16
  := (i.operand.getD 0).toNat_lt

theorem Value.toNat_ofNat_bits {n : Nat} (small : n < 2 ^ 16) :
  (Value.ofNat n).bits.toNat = n
  := by
  simp only [Value.ofNat, Value.bits, Nat.toUInt64, UInt64.toNat_ofNat']
  omega

/-- The index of a function is a value of its type. -/
theorem hasType_ofNat {exe : Executable} {types : HeapTyping} {n : Nat} {f : Function}
    (small : n < 2 ^ 16) (found : exe.functions[n]? = some f) :
  (Value.ofNat n).HasType exe types f.ty
  where
  object handle refers := by cases refers
  function _ := by
    rw [Value.toNat_ofNat_bits small]
    exact .inr ⟨f, found, rfl⟩

section

variable {p : Program} {types : HeapTyping} {m : Machine} {current : Option Nat} {pc : Nat}
  {d : Directive} {i : Instruction} {plan plan' : Plan} {us ws : List Value}

/-- A plain instruction leaves the operands that it is meant to leave. -/
theorem Moves.retypes_compute (moves : Moves p m.exe current pc d plan plan')
    (compiled : CompiledFrom p m.exe) (typed : m.TypedBy types) (small : m.heap.Small)
    (secure : m.Secure) (op : i.op = d.op)
    (number : ∀ n : Nat, d.operand = .number n → i.number = n) (plain : i.op.isPlain)
    (count : ws.length = i.reads) (reads : i.reads = d.takes)
    (holds : plan.Holds m.exe types (us ++ ws)) (live : ∀ v ∈ us ++ ws, v.Live m.heap) :
  Retypes (fun types' result => plan'.Holds m.exe types'
      (us ++ (ws.take (ws.length - (i.early + i.late)) ++ result.toList))) types m
    (i.compute ws m)
  := by
  have others : ∀ v ∈ us, v.Live m.heap := fun v listed => live v (List.mem_append_left _ listed)
  obtain ⟨pc', op', operand⟩ := i
  change op' = d.op at op
  have value {x : MachineM Value} {ty ty' : Ty} {tys : List Ty}
      (made : Retypes (fun types' r => r.HasType m.exe types' ty) types m (x m))
      (fits : m.exe.Fits ty ty') (below : HaveTypes m.exe types tys us) :
      Retypes (fun types' result => HaveTypes m.exe types' (tys ++ [ty']) (us ++ result.toList))
        types m ((some <$> x) m) := made.pushed fits below others
  have literal {v : Value} {ty ty' : Ty} {tys : List Ty} (made : v.HasType m.exe types ty)
      (fits : m.exe.Fits ty ty') (below : HaveTypes m.exe types tys us) :
      Retypes (fun types' result => HaveTypes m.exe types' (tys ++ [ty']) (us ++ result.toList))
        types m ((some <$> (pure v : MachineM Value)) m) := value (.of_ok typed made) fits below
  cases moves with
  | make makes takes fits =>
    rw [← op] at makes
    obtain ⟨below, -⟩ := HaveTypes.split holds (by omega)
    obtain ⟨x, computed, made⟩ :=
      Instruction.retypes_make (i := ⟨pc', op', operand⟩) makes typed small secure ws
    rw [computed, Instruction.drops_eq_reads makes, count, Nat.sub_self, List.take_zero]
    exact value made fits below
  | @zero _ ty _ =>
    obtain rfl : op' = .pushInt1Byte := op
    obtain rfl := List.length_eq_zero_iff.1 count
    rw [List.append_nil] at holds
    have zero : Value.HasType m.exe types ty
        (.ofNat (Instruction.number ⟨pc', .pushInt1Byte, operand⟩)) := by
      rw [number 0 rfl]
      exact .zero
    exact literal zero (.refl ty) holds
  | null op₁ reference =>
    obtain rfl := op.trans op₁
    obtain rfl := List.length_eq_zero_iff.1 count
    rw [List.append_nil] at holds
    exact literal (.of_plain rfl (Ty.isFunction_of_isReference reference)) (.refl _) holds
  | @load site kind place _ _ _ frame declared fits =>
    cases place with
    | «local» slot =>
      obtain rfl : op' = .pushStack kind.slotKind := op
      cases plain
    | global index =>
      obtain rfl : op' = .pushStatic kind.slotKind := op
      obtain rfl := List.length_eq_zero_iff.1 count
      rw [List.append_nil] at holds
      obtain ⟨decl, there, rfl⟩ := Option.map_eq_some_iff.1 declared
      rw [← number _ rfl] at there
      exact value (retypes_getGlobal typed there) fits holds
  | @store site kind place _ _ _ frame declared fits =>
    cases place with
    | «local» slot =>
      obtain rfl : op' = .popStack kind.slotKind := op
      cases plain
    | global index =>
      obtain rfl : op' = .popStatic kind.slotKind := op
      obtain ⟨v, rfl⟩ := List.length_eq_one_iff.1 count
      obtain ⟨below, top⟩ := HaveTypes.split holds rfl
      obtain ⟨decl, there, rfl⟩ := Option.map_eq_some_iff.1 declared
      rw [← number _ rfl] at there
      have stored := (List.forall₂_cons.1 top).1.fits fits
      exact (retypes_setGlobal typed there stored).stored below others
  | @function k _ f _ _ op₁ numbered found fits =>
    obtain rfl := op.trans op₁
    obtain rfl := List.length_eq_zero_iff.1 count
    rw [List.append_nil] at holds
    rw [← number _ numbered] at found
    exact literal (hasType_ofNat (Instruction.number_lt _) found) fits holds
  | duplicate op₁ fits =>
    obtain rfl := op.trans op₁
    obtain ⟨v, rfl⟩ := List.length_eq_one_iff.1 count
    obtain ⟨below, top⟩ := HaveTypes.split holds rfl
    have doubled := (List.forall₂_cons.1 top).1
    apply Retypes.of_ok typed
    exact List.rel_append below (.cons (doubled.fits fits) (.cons doubled .nil))
  | element op₁ fits =>
    obtain rfl := op.trans op₁
    obtain ⟨v, w, rfl⟩ := List.length_eq_two.1 count
    obtain ⟨below, top⟩ := HaveTypes.split holds rfl
    exact value (retypes_arrayGet typed (List.forall₂_cons.1 top).1 _) fits below
  | setElement op₁ fits =>
    obtain rfl := op.trans op₁
    obtain ⟨u, v, w, rfl⟩ := List.length_eq_three.1 count
    obtain ⟨below, top⟩ := HaveTypes.split holds rfl
    obtain ⟨stored, top⟩ := List.forall₂_cons.1 top
    exact (retypes_arraySet typed small secure (List.forall₂_cons.1 top).1
      (stored.fits fits) _).stored below others
  | field op₁ numbered declared fits =>
    obtain rfl := op.trans op₁
    obtain ⟨v, rfl⟩ := List.length_eq_one_iff.1 count
    obtain ⟨below, top⟩ := HaveTypes.split holds rfl
    rw [← number _ numbered] at declared
    exact value (retypes_getField typed (List.forall₂_cons.1 top).1 compiled declared) fits below
  | setField op₁ numbered declared fits =>
    obtain rfl := op.trans op₁
    obtain ⟨v, w, rfl⟩ := List.length_eq_two.1 count
    obtain ⟨below, top⟩ := HaveTypes.split holds rfl
    obtain ⟨stored, top⟩ := List.forall₂_cons.1 top
    rw [← number _ numbered] at declared
    exact (retypes_setField typed small secure (List.forall₂_cons.1 top).1 compiled declared
      (stored.fits fits)).stored below others
  | @method k _ _ _ op₁ numbered =>
    obtain rfl := op.trans op₁
    obtain rfl := number _ numbered
    obtain ⟨v, rfl⟩ := List.length_eq_one_iff.1 count
    obtain ⟨-, top⟩ := HaveTypes.split holds rfl
    have found := retypes_methodFunction typed (List.forall₂_cons.1 top).1
      (Instruction.number ⟨pc', .pushMethod, operand⟩)
    apply found.map
    intro types' function agrees finds
    exact ⟨us, v, _, rfl, HaveTypes.agrees holds live agrees, finds⟩
  | @new index _ _ _ op₁ numbered fits =>
    obtain rfl := op.trans op₁
    obtain rfl := List.length_eq_zero_iff.1 count
    rw [List.append_nil] at holds
    have made := retypes_newInstance typed small secure index
    rw [← number _ numbered] at made
    exact value made fits holds
  | newArray op₁ =>
    obtain rfl := op.trans op₁
    obtain ⟨v, rfl⟩ := List.length_eq_one_iff.1 count
    obtain ⟨below, -⟩ := HaveTypes.split holds rfl
    exact value (retypes_newArray typed small secure _ _) (.refl _) below
  | @arrayLiteral _ _ items element op₁ counted fits =>
    obtain rfl := op.trans op₁
    have takes : d.takes = d.args := by rw [Directive.takes, op₁, Op.takes]
    obtain ⟨below, top⟩ := HaveTypes.split holds (by omega)
    have each : ∀ v ∈ ws, v.HasType m.exe types element := by
      intro v listed
      obtain ⟨k, found⟩ := List.getElem?_of_mem listed
      obtain ⟨ty, there, typed'⟩ := exists_of_forall₂_getElem? top found
      exact typed'.fits (fits ty (List.mem_of_getElem? there))
    have all : Instruction.early ⟨pc', .newArrayLiteral element.slotKind, operand⟩
        + Instruction.late ⟨pc', .newArrayLiteral element.slotKind, operand⟩ = ws.length := by
      rw [count]
      exact Nat.zero_add _
    rw [all, Nat.sub_self, List.take_zero]
    exact value (retypes_allocate typed small secure
      (Object.intact_arrayOfValues _ fun v listed => live v (List.mem_append_right _ listed)) rfl
      (Object.conforms_arrayOfValues each)) (.refl _) below
  | @downCast index _ _ _ _ op₁ numbered fits =>
    obtain rfl := op.trans op₁
    obtain ⟨v, rfl⟩ := List.length_eq_one_iff.1 count
    obtain ⟨below, top⟩ := HaveTypes.split holds rfl
    have target : operand.getD 0 = index := UInt16.toNat_inj.1 (number _ numbered)
    have cast := retypes_downCast typed (List.forall₂_cons.1 top).1 (operand.getD 0)
    apply cast.map
    intro types' _ agrees typed'
    rw [target] at typed'
    exact List.rel_append (below.agrees others agrees) (.cons (typed'.fits fits) .nil)
  | jump op₁ | ret op₁ =>
    obtain rfl := op.trans op₁
    cases plain
  | drop drops =>
    rcases drops with op₁ | op₁ | op₁
    · obtain rfl := op.trans op₁
      obtain ⟨v, rfl⟩ := List.length_eq_one_iff.1 count
      obtain ⟨below, -⟩ := HaveTypes.split holds rfl
      apply Retypes.of_ok typed
      change HaveTypes m.exe types _ (us ++ [])
      rw [List.append_nil]
      exact below
    · obtain rfl := op.trans op₁
      cases plain
    · obtain rfl := op.trans op₁
      cases plain
  | call | callMethod =>
    obtain rfl : op' = .invoke := op
    cases plain

end

end Bytecode
