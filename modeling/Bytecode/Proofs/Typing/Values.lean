import Mathlib
import Bytecode.Proofs.Machine.Handles
import Bytecode.Proofs.Typing.Rules

/-!
# Values of a type

Values do not carry their types, and neither do the elements of arrays. A `HeapTyping` assigns a type
to every handle; a value is of a type with respect to it, `Value.HasType`, and so is a heap,
`Heap.TypedBy`, when all its objects hold values of the types that are declared for them.

A value of a function type denotes a function of exactly that type, or it is zero, with which slots
of such a type start.

Allocations, changes of objects and the default values of slots keep a heap typed. A handle that has
been freed may get another type, hence two typings are only required to agree on the objects of a
heap.
-/

namespace Bytecode

open List (Forall₂)

/-- The types of objects. -/
def Ty.isObject : Ty → Bool
  | .string | .class _ | .array _ => true
  | _ => false

theorem Ty.isReference_of_isObject {ty : Ty} (object : ty.isObject = true) :
  ty.isReference = true
  := by
  cases ty with
  | string | «class» index | array element => rfl
  | _ => cases object

theorem Ty.isFunction_of_isReference {ty : Ty} (reference : ty.isReference = true) :
  ty.isFunction = false
  := by
  cases ty with
  | function result params => cases reference
  | _ => rfl

/-- A type for every handle. -/
structure HeapTyping where
  ty : Handle → Ty
  isObject : ∀ handle, (ty handle).isObject = true

namespace HeapTyping

variable {h h' : Heap} {types types' types'' : HeapTyping}

/-- The objects of the heap have the same types. -/
def Agrees (h : Heap) (types types' : HeapTyping) : Prop :=
  ∀ handle, (h.get? handle).isSome → types'.ty handle = types.ty handle

theorem Agrees.refl (h : Heap) (types : HeapTyping) :
  Agrees h types types
  := fun _ _ => rfl

theorem Agrees.trans (first : Agrees h types types') (grows : h.Grows h')
    (second : Agrees h' types' types'') :
  Agrees h types types''
  := fun handle holds => (second handle (grows.kept handle holds)).trans (first handle holds)

/-- Another type for a handle. -/
def set (types : HeapTyping) (handle : Handle) (ty : Ty) (object : ty.isObject = true) :
    HeapTyping where
  ty := Function.update types.ty handle ty
  isObject handle' := by
    rw [Function.update_apply]
    split
    · exact object
    · exact types.isObject handle'

end HeapTyping

/-! ### Values -/

/-- The value is one of the type. -/
structure Value.HasType (exe : Executable) (types : HeapTyping) (ty : Ty) (v : Value) : Prop where
  object : ∀ handle, v.handle? = some handle → exe.Below (types.ty handle) ty
  function : ty.isFunction = true →
    v.bits = 0 ∨ ∃ f, exe.functions[v.bits.toNat]? = some f ∧ f.ty = ty

namespace Value.HasType

variable {exe : Executable} {types types' : HeapTyping} {ty ty' : Ty} {v : Value}

/-- What refers to nothing and is no function value. -/
theorem of_plain (plain : v.handle? = none) (noFunction : ty.isFunction = false) :
  v.HasType exe types ty
  where
  object handle refers := by
    rw [plain] at refers
    cases refers
  function isFunction := by
    rw [noFunction] at isFunction
    cases isFunction

/-- Zero is of every type, since slots of types other than references start with it. -/
theorem zero :
  Value.zero.HasType exe types ty
  := ⟨nofun, fun _ => .inl rfl⟩

/-- A reference is of the type of its object. -/
theorem ref {handle : Handle} (same : types.ty handle = ty) :
  (Value.ref handle).HasType exe types ty
  where
  object handle' refers := by
    cases refers
    rw [same]
    exact .refl ty
  function isFunction := by
    have object := types.isObject handle
    rw [same] at object
    rw [Ty.isFunction_of_isReference (Ty.isReference_of_isObject object)] at isFunction
    cases isFunction

/-- Only values of reference types refer to objects. -/
theorem handle?_eq_none (typed : v.HasType exe types ty) (plain : ty.isReference = false) :
  v.handle? = none
  := by
  cases refers : v.handle? with
  | none => rfl
  | some handle =>
    have above := (typed.object handle refers).isReference
    rw [plain, Ty.isReference_of_isObject (types.isObject handle)] at above
    cases above

theorem handle?_eq_none_of_null (typed : v.HasType exe types .null) :
  v.handle? = none
  := by
  cases refers : v.handle? with
  | none => rfl
  | some handle =>
    have object := types.isObject handle
    have below := typed.object handle refers
    generalize types.ty handle = ty at object below
    cases below with
    | refl => cases object
    | parent _ above =>
      obtain ⟨_, impossible⟩ := above.class_above
      cases impossible

/-- A value may be used where its type fits. -/
theorem fits (typed : v.HasType exe types ty) (fits : exe.Fits ty ty') :
  v.HasType exe types ty'
  where
  object handle refers := by
    cases fits with
    | below below => exact (typed.object handle refers).trans below
    | null =>
      rw [typed.handle?_eq_none_of_null] at refers
      cases refers
    | plain noReference =>
      rw [typed.handle?_eq_none noReference] at refers
      cases refers
  function isFunction := by
    obtain rfl := fits.eq_of_isFunction isFunction
    exact typed.function isFunction

/-- The type of a value depends on that of its object only. -/
theorem agrees {h : Heap} (typed : v.HasType exe types ty) (live : v.Live h)
    (agrees : types.Agrees h types') :
  v.HasType exe types' ty
  where
  object handle refers := by
    rw [agrees handle (live handle refers)]
    exact typed.object handle refers
  function := typed.function

/-- What an array keeps of a value that is no reference. -/
theorem of_bits {w : Value} (typed : v.HasType exe types ty) (plain : w.handle? = none)
    (bits : w.bits = v.bits) :
  w.HasType exe types ty
  where
  object handle refers := by
    rw [plain] at refers
    cases refers
  function isFunction := by
    rw [bits]
    exact typed.function isFunction

/-- What an array keeps of a reference. -/
theorem ofHandle? (typed : v.HasType exe types ty) (noFunction : ty.isFunction = false) :
  (Value.ofHandle? v.handle?).HasType exe types ty
  where
  object handle refers := by
    apply typed.object handle
    cases v with
    | ref handle' => exact refers
    | word bits | null => cases refers
  function isFunction := by
    rw [noFunction] at isFunction
    cases isFunction

end Value.HasType

theorem Value.bits_ofInt_toInt (v : Value) :
  (Value.ofInt v.toInt).bits = v.bits
  := by simp [Value.ofInt, Value.bits, Value.toInt]

/-- The values are of the types. -/
abbrev HaveTypes (exe : Executable) (types : HeapTyping) (tys : List Ty) (vs : List Value) : Prop :=
  Forall₂ (fun ty v => v.HasType exe types ty) tys vs

theorem HaveTypes.agrees {exe : Executable} {types types' : HeapTyping} {h : Heap} {tys : List Ty}
    {vs : List Value} (typed : HaveTypes exe types tys vs) (live : ∀ v ∈ vs, v.Live h)
    (agrees : types.Agrees h types') :
  HaveTypes exe types' tys vs
  := by
  induction typed with
  | nil => exact .nil
  | cons first _ ih =>
    refine .cons (first.agrees (live _ List.mem_cons_self) agrees) (ih ?_)
    exact fun v listed => live v (List.mem_cons_of_mem _ listed)

theorem HaveTypes.fits {exe : Executable} {types : HeapTyping} {tys tys' : List Ty}
    {vs : List Value} (typed : HaveTypes exe types tys vs) (fits : Forall₂ exe.Fits tys tys') :
  HaveTypes exe types tys' vs
  := by
  induction fits generalizing vs with
  | nil => exact typed
  | cons first _ ih =>
    cases typed with
    | cons firstTyped rest => exact .cons (firstTyped.fits first) (ih rest)

/-! ### Objects -/

namespace Object

/-- The object is an array of references, which keeps nothing of other values. -/
def holdsReferences : Object → Bool
  | .refs _ => true
  | _ => false

/-- What an array keeps of a value: the word, or the object that it refers to. -/
theorem element?_setElement {o : Object} {i k : Nat} {v w : Value}
    (found : (o.setElement i v).element? k = some w) :
  o.element? k = some w ∨ (w.handle? = none ∧ w.bits = v.bits)
    ∨ (o.holdsReferences = true ∧ w = .ofHandle? v.handle?)
  := by
  cases o with
  | string text | inst index fields => cases found
  | ints items =>
    obtain ⟨x, there, rfl⟩ := Option.map_eq_some_iff.1 found
    rw [Array.getElem?_setIfInBounds] at there
    split at there
    · split at there
      all_goals cases there
      exact .inr (.inl ⟨rfl, v.bits_ofInt_toInt⟩)
    · exact .inl (congrArg (Option.map Value.ofInt) there)
  | doubles items =>
    obtain ⟨x, there, rfl⟩ := Option.map_eq_some_iff.1 found
    rw [Array.getElem?_setIfInBounds] at there
    split at there
    · split at there
      all_goals cases there
      exact .inr (.inl ⟨rfl, rfl⟩)
    · exact .inl (congrArg (Option.map Value.ofDouble) there)
  | refs items =>
    obtain ⟨x, there, rfl⟩ := Option.map_eq_some_iff.1 found
    rw [Array.getElem?_setIfInBounds] at there
    split at there
    · split at there
      all_goals cases there
      exact .inr (.inr ⟨rfl, rfl⟩)
    · exact .inl (congrArg (Option.map Value.ofHandle?) there)

theorem element?_arrayOfValues {kind : SlotKind} {values : List Value} {i : Nat} {w : Value}
    (found : (Machine.arrayOfValues kind values).element? i = some w) :
  ∃ v ∈ values, (kind ≠ .object ∧ w.handle? = none ∧ w.bits = v.bits)
    ∨ (kind = .object ∧ w = .ofHandle? v.handle?)
  := by
  cases kind with
  | int =>
    obtain ⟨x, there, rfl⟩ := Option.map_eq_some_iff.1 found
    rw [List.getElem?_toArray, List.getElem?_map] at there
    obtain ⟨v, listed, rfl⟩ := Option.map_eq_some_iff.1 there
    exact ⟨v, List.mem_of_getElem? listed, .inl ⟨nofun, rfl, v.bits_ofInt_toInt⟩⟩
  | double =>
    obtain ⟨x, there, rfl⟩ := Option.map_eq_some_iff.1 found
    rw [List.getElem?_toArray, List.getElem?_map] at there
    obtain ⟨v, listed, rfl⟩ := Option.map_eq_some_iff.1 there
    exact ⟨v, List.mem_of_getElem? listed, .inl ⟨nofun, rfl, rfl⟩⟩
  | object =>
    obtain ⟨x, there, rfl⟩ := Option.map_eq_some_iff.1 found
    rw [List.getElem?_toArray, List.getElem?_map] at there
    obtain ⟨v, listed, rfl⟩ := Option.map_eq_some_iff.1 there
    exact ⟨v, List.mem_of_getElem? listed, .inr ⟨rfl, rfl⟩⟩

/-- The elements of an array are of the element type. -/
structure ElementsTyped (exe : Executable) (types : HeapTyping) (element : Ty) (o : Object) :
    Prop where
  noFunction : o.holdsReferences = true → element.isFunction = false
  each : ∀ i v, o.element? i = some v → v.HasType exe types element

/-- The object holds values of the types that are declared for an object of the given type. -/
def Conforms (exe : Executable) (types : HeapTyping) (ty : Ty) : Object → Prop
  | .string _ => ty = .string
  | .inst index fields => ty = .class index ∧ ∀ (i : Nat) v fieldTy, fields[i]? = some v →
      exe.fieldTy? (.class index) i = some fieldTy → v.HasType exe types fieldTy
  | o => ∃ element, ty = .array element ∧ o.ElementsTyped exe types element

namespace Conforms

variable {exe : Executable} {types types' : HeapTyping} {h : Heap} {o : Object} {ty elementTy : Ty}
  {v : Value}

theorem agrees (conforms : o.Conforms exe types ty) (intact : o.Intact h)
    (agrees : types.Agrees h types') :
  o.Conforms exe types' ty
  := by
  have kept {element : Ty} (typed : o.ElementsTyped exe types element) :
      o.ElementsTyped exe types' element :=
    ⟨typed.noFunction, fun i v found => (typed.each i v found).agrees (intact.element found) agrees⟩
  cases o with
  | string text => exact conforms
  | inst index fields =>
    obtain ⟨same, each⟩ := conforms
    obtain ⟨mask, -, -, live⟩ := intact
    refine ⟨same, ?_⟩
    intro i v fieldTy found declared
    exact (each i v fieldTy found declared).agrees (live i v found).1 agrees
  | _ =>
    obtain ⟨element, same, typed⟩ := conforms
    exact ⟨element, same, kept typed⟩

/-- An element of an array is of the element type. -/
theorem element (conforms : o.Conforms exe types (.array elementTy)) {i : Nat}
    (found : o.element? i = some v) :
  v.HasType exe types elementTy
  := by
  cases o with
  | string text | inst index fields => cases found
  | _ =>
    obtain ⟨_, same, typed⟩ := conforms
    cases same
    exact typed.each i v found

theorem setElement (conforms : o.Conforms exe types (.array elementTy))
    (typed : v.HasType exe types elementTy) (i : Nat) :
  (o.setElement i v).Conforms exe types (.array elementTy)
  := by
  have kept (before : o.ElementsTyped exe types elementTy)
      (same : (o.setElement i v).holdsReferences = o.holdsReferences) :
      (o.setElement i v).ElementsTyped exe types elementTy := by
    refine ⟨same ▸ before.noFunction, ?_⟩
    intro k w found
    rcases element?_setElement found with old | ⟨plain, bits⟩ | ⟨references, rfl⟩
    · exact before.each k w old
    · exact typed.of_bits plain bits
    · exact typed.ofHandle? (before.noFunction references)
  cases o with
  | string text | inst index fields => exact conforms
  | _ =>
    obtain ⟨_, same, before⟩ := conforms
    cases same
    exact ⟨elementTy, rfl, kept before rfl⟩

theorem setField {index : UInt16} {fields : Array Value}
    (conforms : (Object.inst index fields).Conforms exe types ty) {i : Nat}
    (typed : ∀ fieldTy, exe.fieldTy? (.class index) i = some fieldTy →
      v.HasType exe types fieldTy) :
  ((Object.inst index fields).setField i v).Conforms exe types ty
  := by
  obtain ⟨same, each⟩ := conforms
  refine ⟨same, ?_⟩
  intro k w fieldTy found declared
  rw [Array.getElem?_setIfInBounds] at found
  split at found
  · next here =>
      subst here
      split at found
      all_goals cases found
      exact typed fieldTy declared
  · exact each k w fieldTy found declared

end Conforms

theorem isFunction_of_slotKind {ty : Ty} (kind : ty.slotKind = .object) :
  ty.isFunction = false
  := by
  cases ty with
  | function result params => cases kind
  | _ => rfl

variable {exe : Executable} {types : HeapTyping}

theorem conforms_arrayOfValues {element : Ty} {values : List Value}
    (each : ∀ v ∈ values, v.HasType exe types element) :
  (Machine.arrayOfValues element.slotKind values).Conforms exe types (.array element)
  := by
  have typed : (Machine.arrayOfValues element.slotKind values).ElementsTyped exe types element := by
    constructor
    · intro references
      apply isFunction_of_slotKind
      cases kind : element.slotKind with
      | object => rfl
      | _ =>
        rw [kind] at references
        cases references
    · intro i w found
      obtain ⟨v, listed, ⟨-, plain, bits⟩ | ⟨kind, rfl⟩⟩ := element?_arrayOfValues found
      · exact (each v listed).of_bits plain bits
      · exact (each v listed).ofHandle? (isFunction_of_slotKind kind)
  cases kind : element.slotKind with
  | _ =>
    rw [kind] at typed
    exact ⟨element, rfl, typed⟩

theorem conforms_zeroArray (element : Ty) (size : Nat) :
  (Machine.zeroArray element.slotKind size).Conforms exe types (.array element)
  := by
  rw [zeroArray_eq_arrayOfValues]
  apply conforms_arrayOfValues
  intro v listed
  rw [List.eq_of_mem_replicate listed]
  exact .zero

end Object

/-! ### Heaps -/

/-- Every object conforms to the type of its handle. -/
def Heap.TypedBy (exe : Executable) (types : HeapTyping) (h : Heap) : Prop :=
  ∀ handle o, h.get? handle = some o → o.Conforms exe types (types.ty handle)

namespace Heap.TypedBy

variable {exe : Executable} {types : HeapTyping} {h h' : Heap} {o : Object} {ty : Ty} {v : Value}

section

variable (typed : h.TypedBy exe types)
include typed

/-- A heap with fewer objects. -/
theorem of_get? (fewer : ∀ handle o, h'.get? handle = some o → h.get? handle = some o) :
  h'.TypedBy exe types
  := fun handle o found => typed handle o (fewer handle o found)

/-- A new object gets its type. -/
theorem alloc (sound : h.Sound) (small : (h.alloc o).2.Small) (intact : o.Intact h)
    (object : ty.isObject = true) (conforms : o.Conforms exe types ty) :
  ∃ types', types.Agrees h types' ∧ (h.alloc o).2.TypedBy exe types'
    ∧ types'.ty (h.alloc o).1 = ty
  := by
  have wf := sound.wellFormed
  have grows := wf.grows_alloc o
  have inside := wf.nextIndex_lt_size_alloc o
  have index : (h.alloc o).1.index = h.nextIndex := by
    rw [alloc_fst, Handle.index_ofIndex (by unfold Small at small; omega)]
  have agrees : types.Agrees h (types.set (h.alloc o).1 ty object) := by
    intro handle holds
    apply Function.update_of_ne
    rintro rfl
    rw [get?_eq_objectAt, index, wf.objectAt_nextIndex] at holds
    cases holds
  refine ⟨types.set (h.alloc o).1 ty object, agrees, ?_, Function.update_self ..⟩
  intro handle o' found
  by_cases same : handle = (h.alloc o).1
  · subst same
    rw [wf.get?_alloc_fst o small] at found
    cases found
    rw [show (types.set (h.alloc o).1 ty object).ty (h.alloc o).1 = ty from Function.update_self ..]
    exact conforms.agrees intact agrees
  · have old : h.get? handle = some o' := by
      rw [get?_eq_objectAt, wf.objectAt_alloc, if_neg] at found
      · exact found
      · intro next
        exact same (Handle.eq_of_index_eq (next.trans index.symm))
    rw [agrees handle (by rw [old]; rfl)]
    exact (typed handle o' old).agrees (sound.intact (grows.small small) _ o' old) agrees

/-- An object is changed to one that conforms as well. -/
theorem update {handle : Handle} {f : Object → Object}
    (keeps : ∀ o, h.get? handle = some o → o.Conforms exe types (types.ty handle) → (f o).Conforms exe types (types.ty handle)) :
  (h.update handle f).TypedBy exe types
  := by
  intro handle' o found
  rw [get?_eq_objectAt, objectAt_update] at found
  split at found
  · next same =>
      obtain rfl := Handle.eq_of_index_eq same
      obtain ⟨o', there, rfl⟩ := Option.map_eq_some_iff.1 found
      exact keeps o' there (typed _ o' there)
  · exact typed handle' o found

/-- A slot starts with a value of its type. -/
theorem defaultValue (sound : h.Sound) (ty : Ty) (small : (h.defaultValue ty).2.Small) :
  ∃ types', types.Agrees h types' ∧ (h.defaultValue ty).2.TypedBy exe types'
    ∧ (h.defaultValue ty).1.HasType exe types' ty
  := by
  cases ty with
  | string =>
    obtain ⟨types', agrees, typed', same⟩ := typed.alloc sound small trivial rfl rfl
    exact ⟨types', agrees, typed', .ref same⟩
  | null | «class» index | array element => exact ⟨types, .refl h types, typed, .of_plain rfl rfl⟩
  | _ => exact ⟨types, .refl h types, typed, .zero⟩

theorem defaultValues (sound : h.Sound) (tys : List Ty) (small : (h.defaultValues tys).2.Small) :
  ∃ types', types.Agrees h types' ∧ (h.defaultValues tys).2.TypedBy exe types'
    ∧ HaveTypes exe types' tys (h.defaultValues tys).1
  := by
  induction tys generalizing h types with
  | nil => exact ⟨types, .refl h types, typed, .nil⟩
  | cons ty rest ih =>
    obtain ⟨sound₁, grows₁, live₁, -⟩ := sound.defaultValue ty
    have grows₂ := (sound₁.defaultValues rest).2.1
    have small₁ := grows₂.small small
    obtain ⟨types₁, agrees₁, typed₁, first⟩ := typed.defaultValue sound ty small₁
    obtain ⟨types₂, agrees₂, typed₂, others⟩ := ih typed₁ sound₁ small
    exact ⟨types₂, agrees₁.trans grows₁ agrees₂, typed₂,
      .cons (first.agrees (live₁ small₁) agrees₂) others⟩

end

end Heap.TypedBy

end Bytecode
