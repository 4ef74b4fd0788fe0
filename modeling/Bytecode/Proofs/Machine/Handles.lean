import Mathlib
import Bytecode.Proofs.Heap.Sound
import Bytecode.Proofs.Native
import Bytecode.Proofs.Machine.Calls

/-!
# Handles in instructions

A machine is `Secure` when its heap has no dangling handles and its globals are live. What plain
instructions and the built-in natives compute from live operands leaves it secure, whether it
fails or not; a value that it yields is live. `Outcome` says so of the outcome of an action, and
what has to be wrong if it is a crash, which is never a missing object.
-/

namespace Bytecode

namespace Object

variable {o : Object} {h : Heap}

theorem exists_element (o : Object) {i : Nat} (inside : i < o.arrayLength?.getD 0) :
  ∃ v, o.element? i = some v
  := by
  cases o with
  | ints items | doubles items | refs items =>
    exact ⟨_, congrArg (Option.map _) (Array.getElem?_eq_getElem inside)⟩
  | _ => cases inside

theorem Intact.element (intact : o.Intact h) {i : Nat} {v : Value} (found : o.element? i = some v) :
  v.Live h
  := by
  cases o with
  | ints items =>
    obtain ⟨i, -, rfl⟩ := Option.map_eq_some_iff.1 found
    exact nofun
  | doubles items =>
    obtain ⟨x, -, rfl⟩ := Option.map_eq_some_iff.1 found
    exact nofun
  | refs items =>
    obtain ⟨element, there, rfl⟩ := Option.map_eq_some_iff.1 found
    intro handle' refers
    cases element with
    | none => cases refers
    | some handle =>
      cases refers
      exact intact i _ there
  | _ => cases found

theorem Intact.setElement (intact : o.Intact h) (i : Nat) {v : Value} (live : v.Live h) :
  (o.setElement i v).Intact h
  := by
  cases o with
  | refs items =>
    intro k handle found
    rw [Array.getElem?_setIfInBounds] at found
    split at found
    · split at found
      · exact live handle (Option.some.inj found)
      · cases found
    · exact intact k handle found
  | _ => exact intact

theorem Intact.setField {class_ : UInt16} {fields : Array Value}
    (intact : (Object.inst class_ fields).Intact h) {i : Nat} {v : Value} (live : v.Live h)
    (followed : ∀ mask, h.masks[class_.toNat]? = some mask → v.handle? ≠ none →
      mask[i]? = some true) :
  ((Object.inst class_ fields).setField i v).Intact h
  := by
  obtain ⟨mask, masked, size, each⟩ := intact
  refine ⟨mask, masked, by simpa using size, ?_⟩
  intro k w found
  rw [Array.getElem?_setIfInBounds] at found
  split at found
  · next same =>
      subst same
      split at found
      · cases found
        exact ⟨live, followed mask masked⟩
      · cases found
  · exact each k w found

theorem intact_arrayOfValues (kind : SlotKind) {values : List Value}
    (live : ∀ v ∈ values, v.Live h) :
  (Machine.arrayOfValues kind values).Intact h
  := by
  cases kind with
  | object =>
    intro i handle found
    rw [List.getElem?_toArray, List.getElem?_map, Option.map_eq_some_iff] at found
    obtain ⟨v, listed, refers⟩ := found
    exact live v (List.mem_of_getElem? listed) handle refers
  | _ => trivial

theorem zeroArray_eq_arrayOfValues (kind : SlotKind) (size : Nat) :
  Machine.zeroArray kind size = Machine.arrayOfValues kind (List.replicate size .zero)
  := by
  cases kind with
  | _ =>
    simp only [Machine.zeroArray, Machine.arrayOfValues, List.map_replicate, List.toArray_replicate]
    rfl

theorem intact_zeroArray (kind : SlotKind) (size : Nat) :
  (Machine.zeroArray kind size).Intact h
  := by
  rw [zeroArray_eq_arrayOfValues]
  apply intact_arrayOfValues
  rintro v listed handle refers
  rw [List.eq_of_mem_replicate listed] at refers
  cases refers

end Object

namespace Machine

/-- Neither objects nor globals have dangling handles, and the collector knows the fields that hold
references. -/
structure Secure (m : Machine) : Prop where
  sound : m.heap.Sound
  masks : m.heap.masks = m.exe.classes.map Class.referenceFields
  globals : m.heap.Small → ∀ (k : Nat) v, m.globals[k]? = some v → v.Live m.heap

/-- What has come of an action of a secure machine: all objects are still there, the machine is
secure, a result satisfies a condition, and a crash has a certain cause. -/
structure Outcome {α : Type} (Q : α → Heap → Prop) (C : Prop) (m : Machine)
    (r : EStateM.Result Trap Machine α) : Prop where
  grows : m.heap.Grows (stateOf r).heap
  secure : (stateOf r).Secure
  result : ∀ a m', r = .ok a m' → m'.heap.Small → Q a m'.heap
  crash : ∀ m', r = .error .crash m' → m'.heap.Small → C

namespace Outcome

variable {α β : Type} {Q : α → Heap → Prop} {R : β → Heap → Prop} {C : Prop} {m : Machine}
  {x : MachineM α}

theorem of_ok (secure : m.Secure) {a : α} (holds : m.heap.Small → Q a m.heap) :
  Outcome Q C m (.ok a m)
  where
  grows := .refl _
  secure := secure
  result a' m' same small := by
    cases same
    exact holds small
  crash m' impossible := by cases impossible

theorem of_error (secure : m.Secure) {trap : Trap} (cause : trap = .crash → m.heap.Small → C) :
  Outcome Q C m (.error trap m)
  where
  grows := .refl _
  secure := secure
  result a m' impossible := by cases impossible
  crash m' same small := by
    cases same
    exact cause rfl small

theorem of_fault (secure : m.Secure) (f : Fault) :
  Outcome Q C m (.error (.error f) m)
  := .of_error secure nofun

theorem bind {f : α → MachineM β} (first : Outcome Q C m (x m))
    (second : ∀ a m₁, x m = .ok a m₁ → m.heap.Grows m₁.heap → m₁.Secure →
      (m₁.heap.Small → Q a m₁.heap) → Outcome R C m₁ (f a m₁)) :
  Outcome R C m ((x >>= f) m)
  := by
  obtain ⟨grows, secure, result, crash⟩ := first
  cases run : x m with
  | ok a m₁ =>
    rw [run] at grows secure result
    obtain ⟨grows', secure', result', crash'⟩ :=
      second a m₁ run grows secure (result a m₁ rfl)
    rw [bind_of_ok run]
    exact ⟨grows.trans grows', secure', result', crash'⟩
  | error trap m₁ =>
    rw [run] at grows secure crash
    rw [bind_of_error run]
    refine ⟨grows, secure, nofun, ?_⟩
    rintro m' same
    cases same
    exact crash m₁ rfl

theorem map {f : α → β} (first : Outcome Q C m (x m)) (each : ∀ a h, Q a h → R (f a) h) :
  Outcome R C m ((f <$> x) m)
  := by
  rw [map_eq_pure_bind]
  apply first.bind
  intro a m₁ _ _ secure holds
  exact .of_ok secure fun small => each a _ (holds small)

/-- A value that an instruction yields is live. -/
def YieldsLive (result : Option Value) (h : Heap) : Prop := ∀ v, result = some v → v.Live h

theorem of_word (secure : m.Secure) {v : Value} (plain : v.handle? = none) :
  Outcome YieldsLive C m (.ok (some v) m)
  := by
  refine .of_ok secure fun _ w same => ?_
  cases same
  exact Value.live_of_plain plain

theorem yields {x : MachineM Value} (outcome : Outcome (fun r h => r.Live h) C m (x m)) :
  Outcome YieldsLive C m ((some <$> x) m)
  := by
  apply outcome.map
  intro r h live v same
  cases same
  exact live

theorem counts (outcome : Outcome (fun _ _ => True) C m (x m)) {f : α → Value}
    (plain : ∀ a, (f a).handle? = none) :
  Outcome (fun r h => r.Live h) C m ((x >>= fun a => pure (f a)) m)
  := by
  rw [← map_eq_pure_bind]
  apply outcome.map
  intro a h _
  exact Value.live_of_plain (plain a)

theorem ends {x : MachineM Unit} (outcome : Outcome (fun _ _ => True) C m (x m)) :
  Outcome YieldsLive C m (((fun _ => none) <$> x) m)
  := outcome.map fun _ _ _ _ impossible => by cases impossible

/-- A change of the heap. -/
theorem modifyHeap (secure : m.Secure) {f : Heap → α × Heap} (sound : (f m.heap).2.Sound)
    (grows : m.heap.Grows (f m.heap).2)
    (holds : (f m.heap).2.Small → Q (f m.heap).1 (f m.heap).2) :
  Outcome Q C m (Machine.modifyHeap f m)
  := by
  rw [modifyHeap_eq]
  refine ⟨grows, ⟨sound, grows.masks.trans secure.masks, ?_⟩, ?_, nofun⟩
  · intro small k v found
    exact grows.live (secure.globals (grows.small small) k v found)
  · intro a m' same small
    cases same
    exact holds small

end Outcome

/-! ### Objects -/

section

variable {m : Machine} {v : Value} {C : Prop}
variable {m' : Machine} {w : Value} {o : Object} {index : Nat}

/-- An operand is live, as long as every slot has a handle of its own. -/
def HasLive (m : Machine) (v : Value) : Prop := m.heap.Small → v.Live m.heap

theorem HasLive.grows (live : m.HasLive v) (grows : m.heap.Grows m'.heap) :
  m'.HasLive v
  := fun small => grows.live (live (grows.small small))

/-- The value refers to the object. -/
def RefersTo (v : Value) (o : Object) (h : Heap) : Prop :=
  ∃ handle, v.handle? = some handle ∧ h.get? handle = some o

theorem RefersTo.unique {o' : Object} {h : Heap} (refers : RefersTo v o h)
    (refers' : RefersTo v o' h) :
  o = o'
  := by
  obtain ⟨handle, named, found⟩ := refers
  obtain ⟨handle', named', found'⟩ := refers'
  obtain rfl : handle = handle' := Option.some.inj (named.symm.trans named')
  exact Option.some.inj (found.symm.trans found')

theorem object_eq_ok (run : object v m = .ok o m') :
  m' = m ∧ RefersTo v o m.heap
  := by
  unfold object at run
  cases refers : v.handle? with
  | none =>
    rw [refers] at run
    cases run
  | some handle =>
    rw [refers] at run
    dsimp only at run
    cases found : m.heap.get? handle with
    | none =>
      rw [found] at run
      cases run
    | some o' =>
      rw [found] at run
      cases run
      exact ⟨rfl, handle, refers, found⟩

variable (secure : m.Secure)
include secure

section

variable (live : m.HasLive v)
include live

theorem outcome_object :
  Outcome (RefersTo v) C m (object v m)
  := by
  unfold object
  cases refers : v.handle? with
  | none => exact .of_fault secure _
  | some handle =>
    cases found : m.heap.get? handle with
    | none =>
      simp only [found]
      refine .of_error secure fun _ small => ?_
      have holds := live small handle refers
      rw [found] at holds
      cases holds
    | some o =>
      simp only [found]
      exact .of_ok secure fun _ => ⟨handle, refers, found⟩

theorem outcome_text? :
  Outcome (fun _ _ => True) C m (text? v m)
  := by
  unfold text? Host.text?
  cases refers : v.handle? with
  | none => exact .of_ok secure fun _ => trivial
  | some handle =>
    cases found : m.host.heap.get? handle with
    | none =>
      simp only [found]
      refine .of_error secure fun _ small => ?_
      have holds := live small handle refers
      change (m.host.heap.get? handle).isSome at holds
      rw [found] at holds
      cases holds
    | some o =>
      simp only [found]
      exact .of_ok secure fun _ => trivial

theorem outcome_expectString :
  Outcome (fun _ _ => True) C m (expectString v m)
  := by
  apply (outcome_object secure live).bind
  intro o m₁ _ _ secure₁ _
  cases o with
  | string text => exact .of_ok secure₁ fun _ => trivial
  | _ => exact .of_fault secure₁ _

theorem outcome_textOrNull :
  Outcome (fun _ _ => True) C m (textOrNull v m)
  := by
  apply (outcome_text? secure live).bind
  intro text m₁ _ _ secure₁ _
  exact .of_ok secure₁ fun _ => trivial

theorem outcome_sameString (live' : m.HasLive w) :
  Outcome (fun _ _ => True) C m (sameString v w m)
  := by
  unfold sameString
  cases v.handle? with
  | none =>
    cases w.handle? with
    | none | some _ => exact .of_ok secure fun _ => trivial
  | some _ =>
    cases w.handle? with
    | none => exact .of_ok secure fun _ => trivial
    | some _ =>
      apply (outcome_text? secure live).bind
      intro text m₁ _ grows₁ secure₁ _
      apply (outcome_text? secure₁ (live'.grows grows₁)).bind
      intro text' m₂ _ _ secure₂ _
      exact .of_ok secure₂ fun _ => trivial

theorem outcome_compareStrings (live' : m.HasLive w) (op : Comparison) :
  Outcome (fun r h => r.Live h) C m (compareStrings op v w m)
  := by
  have word {m₁ : Machine} (secure₁ : m₁.Secure) (b : Bool) :
      Outcome (fun (r : Value) h => r.Live h) C m₁ (.ok (.ofBool b) m₁) :=
    .of_ok secure₁ fun _ => nofun
  have ordered (f : String → String → Bool) : Outcome (fun (r : Value) h => r.Live h) C m
      ((do
        let a ← expectString v
        let b ← expectString w
        return Value.ofBool (f a b)) m) := by
    apply (outcome_expectString secure live).bind
    intro a m₁ _ grows₁ secure₁ _
    apply (outcome_expectString secure₁ (live'.grows grows₁)).bind
    intro b m₂ _ _ secure₂ _
    exact word secure₂ _
  cases op with
  | eq | ne =>
    apply (outcome_sameString secure live live').bind
    intro b m₁ _ _ secure₁ _
    exact word secure₁ _
  | _ => exact ordered _

end

theorem outcome_allocate (intact : m.heap.Small → o.Intact m.heap) :
  Outcome (fun r h => r.Live h) C m (allocate o m)
  := by
  have wf := secure.sound.wellFormed
  exact .modifyHeap secure (secure.sound.alloc intact) (wf.grows_alloc o) secure.sound.live_alloc

theorem outcome_newString (text : String) :
  Outcome (fun r h => r.Live h) C m (newString text m)
  := outcome_allocate secure fun _ => trivial

theorem outcome_convert (conversion : Conversion) :
  Outcome (fun r h => r.Live h) C m (convert conversion v m)
  := by
  cases conversion with
  | intToDouble | doubleToInt => exact .of_ok secure fun _ => nofun
  | _ => exact outcome_newString secure _

/-! ### Arrays -/

omit secure in
theorem checkIndex_eq_ok {index : Int64} {size i : Nat} (run : checkIndex index size m = .ok i m') :
  m' = m ∧ i < size
  := by
  unfold checkIndex at run
  split at run
  · cases run
    exact ⟨rfl, by omega⟩
  · cases run

theorem outcome_checkIndex (index : Int64) (size : Nat) :
  Outcome (fun _ _ => True) C m (checkIndex index size m)
  := by
  unfold checkIndex
  split
  · exact .of_ok secure fun _ => trivial
  · exact .of_fault secure _

theorem outcome_arrayGet (live : m.HasLive v) (index : Int64) :
  Outcome (fun r h => r.Live h) C m (arrayGet v index m)
  := by
  apply (outcome_object secure live).bind
  intro o m₁ _ _ secure₁ refers
  apply (outcome_checkIndex secure₁ _ _).bind
  intro i m₂ checked _ secure₂ _
  obtain ⟨rfl, inside⟩ := checkIndex_eq_ok checked
  obtain ⟨element, found⟩ := o.exists_element inside
  rw [found]
  refine .of_ok secure₂ fun small => ?_
  obtain ⟨handle, -, there⟩ := refers small
  exact (secure₂.sound.intact small _ o there).element found

theorem outcome_updateObject {f : Object → Object}
    (keeps : m.heap.Small → ∀ o, RefersTo v o m.heap → o.Intact m.heap → (f o).Intact m.heap) :
  Outcome (fun _ _ => True) C m (updateObject v f m)
  := by
  unfold updateObject
  cases refers : v.handle? with
  | none => exact .of_fault secure _
  | some handle =>
    apply Outcome.modifyHeap secure
    · apply secure.sound.update
      intro small o found intact
      exact keeps small o ⟨handle, refers, found⟩ intact
    · exact m.heap.grows_update handle f
    · exact fun _ => trivial

theorem outcome_arraySet (live : m.HasLive v) (live' : m.HasLive w)
    (index : Int64) :
  Outcome (fun _ _ => True) C m (arraySet v index w m)
  := by
  apply (outcome_object secure live).bind
  intro o m₁ _ grows₁ secure₁ _
  apply (outcome_checkIndex secure₁ _ _).bind
  intro i m₂ _ grows₂ secure₂ _
  apply outcome_updateObject secure₂
  intro small o' _ intact
  exact intact.setElement i (live'.grows (grows₁.trans grows₂) small)

theorem outcome_newArray (kind : SlotKind) (size : Int64)
    (cause : (maxArrayLength : Int) ≤ size.toInt → C) :
  Outcome (fun r h => r.Live h) C m (newArray kind size m)
  := by
  unfold newArray
  split
  · exact .of_fault secure _
  · split
    · next large => exact .of_error secure fun _ _ => cause large
    · exact outcome_allocate secure fun _ => Object.intact_zeroArray kind _

theorem outcome_arrayLength (live : m.HasLive v) :
  Outcome (fun _ _ => True) C m (arrayLength v m)
  := by
  apply (outcome_object secure live).bind
  intro o m₁ _ _ secure₁ _
  cases o.arrayLength? with
  | none => exact .of_fault secure₁ _
  | some n => exact .of_ok secure₁ fun _ => trivial

/-! ### Instances -/

/-- The value is an instance with the given class and fields. -/
def IsInstance (v : Value) (class_ : UInt16) (fields : Array Value) (m : Machine) : Prop :=
  RefersTo v (.inst class_ fields) m.heap

theorem outcome_expectInstance (live : m.HasLive v) :
  Outcome (fun found h => RefersTo v (.inst found.1 found.2) h) C m (expectInstance v m)
  := by
  apply (outcome_object secure live).bind
  intro o m₁ _ _ secure₁ refers
  cases o with
  | inst class_ fields => exact .of_ok secure₁ refers
  | _ => exact .of_fault secure₁ _

omit secure in
theorem expectInstance_eq_ok {found : UInt16 × Array Value}
    (run : expectInstance v m = .ok found m') :
  m' = m ∧ IsInstance v found.1 found.2 m
  := by
  obtain ⟨o, m₁, run₁, rest₁⟩ := bind_eq_ok.1 run
  obtain ⟨rfl, refers⟩ := object_eq_ok run₁
  cases o with
  | inst class_ fields =>
    cases rest₁
    exact ⟨rfl, refers⟩
  | _ => cases rest₁

theorem outcome_getField (live : m.HasLive v) (index : Nat)
    (cause : ∀ class_ fields, IsInstance v class_ fields m → fields.size ≤ index → C) :
  Outcome (fun r h => r.Live h) C m (getField v index m)
  := by
  apply (outcome_expectInstance secure live).bind
  rintro ⟨class_, fields⟩ m₁ run₁ _ secure₁ refers
  obtain ⟨rfl, isInstance⟩ := expectInstance_eq_ok run₁
  dsimp only
  cases found : fields[index]? with
  | none =>
    exact .of_error secure₁ fun _ _ =>
      cause class_ fields isInstance (Array.getElem?_eq_none_iff.1 found)
  | some field =>
    refine .of_ok secure₁ fun small => ?_
    obtain ⟨handle, -, there⟩ := refers small
    obtain ⟨mask, -, -, each⟩ := secure₁.sound.intact small _ _ there
    exact (each index field found).1

/-- A reference is put only into a field that is declared to hold one. -/
def FieldFits (target v : Value) (index : Nat) (m : Machine) : Prop :=
  ∀ class_ fields c decl, IsInstance target class_ fields m →
    m.exe.classes[class_.toNat]? = some c → c.fields[index]? = some decl →
    v.handle? ≠ none → decl.ty.isReference

theorem outcome_setField (live : m.HasLive v) (live' : m.HasLive w)
    (fits : FieldFits v w index m)
    (cause : ∀ class_ fields, IsInstance v class_ fields m → fields.size ≤ index → C) :
  Outcome (fun _ _ => True) C m (setField v index w m)
  := by
  apply (outcome_expectInstance secure live).bind
  rintro ⟨class_, fields⟩ m₁ run₁ _ secure₁ refers
  obtain ⟨rfl, isInstance⟩ := expectInstance_eq_ok run₁
  dsimp only
  split
  · next inside =>
      change index < fields.size at inside
      apply outcome_updateObject secure₁
      intro small o refers' intact
      obtain rfl : o = .inst class_ fields := refers'.unique (refers small)
      apply intact.setField (live' small)
      intro mask masked flagged
      rw [secure₁.masks, Array.getElem?_map, Option.map_eq_some_iff] at masked
      obtain ⟨c, declared, rfl⟩ := masked
      obtain ⟨mask, masked, size, -⟩ := intact
      rw [secure₁.masks, Array.getElem?_map, declared] at masked
      cases masked
      rw [Class.referenceFields, List.length_map] at size
      have typed := List.getElem?_eq_getElem (l := c.fields) (by omega : index < c.fields.length)
      rw [Class.referenceFields, List.getElem?_map, typed]
      exact congrArg some (fits class_ fields c _ isInstance declared typed flagged)
  · next outside =>
      exact .of_error secure₁ fun _ _ => cause class_ fields isInstance (by omega)

/-- The class of an instance has no such method. -/
def LacksMethod (v : Value) (index : Nat) (m : Machine) : Prop :=
  ∃ class_ fields, IsInstance v class_ fields m
    ∧ ((m.exe.classes[class_.toNat]?).bind fun c => c.methods[index]?) = none

theorem outcome_methodFunction (live : m.HasLive v) (index : Nat)
    (cause : LacksMethod v index m → C) :
  Outcome (fun _ _ => True) C m (methodFunction v index m)
  := by
  apply (outcome_expectInstance secure live).bind
  rintro ⟨class_, fields⟩ m₁ run₁ _ secure₁ _
  obtain ⟨rfl, isInstance⟩ := expectInstance_eq_ok run₁
  dsimp only
  rw [bind_of_ok (get_eq m₁)]
  cases found : (m₁.exe.classes[class_.toNat]?).bind fun c => c.methods[index]? with
  | none => exact .of_error secure₁ fun _ _ => cause ⟨class_, fields, isInstance, found⟩
  | some method => exact .of_ok secure₁ fun _ => trivial

theorem outcome_downCast (live : m.HasLive v) (target : UInt16) :
  Outcome (fun _ _ => True) C m (downCast v target m)
  := by
  unfold downCast
  split
  · exact .of_ok secure fun _ => trivial
  · apply (outcome_expectInstance secure live).bind
    rintro ⟨class_, fields⟩ m₁ _ _ secure₁ _
    change Outcome _ C m₁ ((if _ then (_ : MachineM Unit) else _) m₁)
    split
    · exact .of_fault secure₁ _
    · exact .of_ok secure₁ fun _ => trivial

theorem outcome_instanceOf (live : m.HasLive v) (target : UInt16) :
  Outcome (fun _ _ => True) C m (instanceOf v target m)
  := by
  unfold instanceOf
  cases v.handle? with
  | none => exact .of_ok secure fun _ => trivial
  | some handle =>
    apply (outcome_object secure live).bind
    intro o m₁ _ _ secure₁ _
    cases o with
    | _ => exact .of_ok secure₁ fun _ => trivial

/-- Allocate an instance with the default values of its fields. -/
def instantiate (index : Nat) (c : Class) (h : Heap) : Value × Heap :=
  let (fields, h) := h.defaultValues (c.fields.map (·.ty))
  let (handle, h) := h.alloc (.inst index.toUInt16 fields.toArray)
  (.ref handle, h)

omit secure in
theorem newInstance_eq (index : Nat) :
  newInstance index m = match m.exe.classes[index]? with
    | none => .error .crash m
    | some c => modifyHeap (instantiate index c) m
  := by
  change (match m.exe.classes[index]? with
    | none => (_ : MachineM Value)
    | some c => _) m = _
  cases m.exe.classes[index]? with
  | none => rfl
  | some c => rfl

/-- A new instance is intact, since references are default values only of fields that are declared
to hold them. -/
theorem intact_instance (fits : index < 2 ^ 16) {c : Class}
    (found : m.exe.classes[index]? = some c) {fields : List Value} {h : Heap}
    (made : m.heap.defaultValues (c.fields.map (·.ty)) = (fields, h)) (small : h.Small) :
  (Object.inst index.toUInt16 fields.toArray).Intact h
  := by
  obtain ⟨-, grows, length, each⟩ := secure.sound.defaultValues (c.fields.map (·.ty))
  rw [made] at grows length each
  dsimp only at grows length each
  rw [List.length_map] at length
  refine ⟨c.referenceFields, ?_, ?_, ?_⟩
  · have same : index.toUInt16.toNat = index := by
      rw [Nat.toUInt16, UInt16.toNat_ofNat']
      omega
    rw [grows.masks, secure.masks, Array.getElem?_map, same, found]
    rfl
  · rw [List.size_toArray, length, Class.referenceFields, List.length_map]
  · intro i v field
    rw [List.getElem?_toArray] at field
    have inside := (List.getElem?_eq_some_iff.1 field).1
    rw [length] at inside
    have typed := List.getElem?_eq_getElem inside
    obtain ⟨live, plain⟩ := each i v c.fields[i].ty field (by rw [List.getElem?_map, typed]; rfl)
    refine ⟨live small, ?_⟩
    intro flagged
    rw [Class.referenceFields, List.getElem?_map, typed]
    cases reference : c.fields[i].ty.isReference with
    | true => exact congrArg some reference
    | false => exact absurd (plain reference) flagged

theorem outcome_newInstance (fits : index < 2 ^ 16)
    (cause : m.exe.classes.size ≤ index → C) :
  Outcome (fun r h => r.Live h) C m (newInstance index m)
  := by
  rw [newInstance_eq]
  cases found : m.exe.classes[index]? with
  | none => exact .of_error secure fun _ _ => cause (Array.getElem?_eq_none_iff.1 found)
  | some c =>
    obtain ⟨sound, grows, -, -⟩ := secure.sound.defaultValues (c.fields.map (·.ty))
    have intact := intact_instance secure fits found rfl
    apply Outcome.modifyHeap secure
    · exact sound.alloc intact
    · exact grows.trans (sound.wellFormed.grows_alloc _)
    · exact sound.live_alloc

/-! ### Globals -/

theorem outcome_getGlobal (index : Nat) (cause : m.globals.size ≤ index → C) :
  Outcome (fun r h => r.Live h) C m (getGlobal index m)
  := by
  unfold getGlobal
  cases found : m.globals[index]? with
  | none =>
    exact .of_error secure fun _ _ => cause (Array.getElem?_eq_none_iff.1 found)
  | some v =>
    exact .of_ok secure fun small => secure.globals small index v found

theorem outcome_setGlobal (live : m.HasLive v) (index : Nat)
    (cause : m.globals.size ≤ index → C) :
  Outcome (fun _ _ => True) C m (setGlobal index v m)
  := by
  by_cases inside : index < m.globals.size
  · rw [setGlobal, if_pos inside]
    refine ⟨.refl _, ⟨secure.sound, secure.masks, ?_⟩, fun _ _ _ _ => trivial, ?_⟩
    swap
    · intro _ crashed
      cases crashed
    intro small k w found
    change (m.globals.setIfInBounds index v)[k]? = some w at found
    by_cases same : index = k
    · subst same
      rw [Array.getElem?_setIfInBounds_self_of_lt inside] at found
      cases found
      exact live small
    · rw [Array.getElem?_setIfInBounds_ne same] at found
      exact secure.globals small k w found
  · rw [setGlobal, if_neg inside]
    exact .of_error secure fun _ _ => cause (by omega)

end

/-! ### Plain instructions -/

end Machine

namespace Instruction

open Machine

/-- What has to be wrong if a plain instruction crashes: something is missing in a table of the
executable, or an array is too large. -/
def OutOfRange (i : Instruction) (vs : List Value) (m : Machine) : Prop :=
  let first := vs.getD 0 .zero
  let second := vs.getD 1 .zero
  match i.op with
  | .pushStatic _ | .popStatic _ => m.globals.size ≤ i.number
  | .pushField _ => ∃ class_ fields, IsInstance first class_ fields m ∧ fields.size ≤ i.number
  | .popField _ => ∃ class_ fields, IsInstance second class_ fields m ∧ fields.size ≤ i.number
  | .pushMethod => LacksMethod first i.number m
  | .new => m.exe.classes.size ≤ i.number
  | .newArray _ => (maxArrayLength : Int) ≤ first.toInt.toInt
  | _ => False

/-- A reference is stored only into a field that is declared to hold one. -/
def StoreFits (i : Instruction) (vs : List Value) (m : Machine) : Prop :=
  ∀ kind, i.op = .popField kind → FieldFits (vs.getD 1 .zero) (vs.getD 0 .zero) i.number m

variable {m : Machine} {C : Prop}

theorem outcome_literal (secure : m.Secure) {select : Constant → Option (MachineM Value)}
    (selection : Selection select) (index : Nat) :
  Outcome (fun r h => r.Live h) C m (compute.literal index select m)
  := by
  rw [compute.literal, bind_of_ok (get_eq m)]
  cases found : (m.exe.constants[index]?).bind select with
  | none => exact .of_fault secure _
  | some x =>
    refine selection.each (P := fun x => Outcome _ C m (x m)) ?_ (outcome_newString secure) found
    intro v plain
    exact .of_ok secure fun _ => Value.live_of_plain plain

theorem outcome_arithInts (secure : m.Secure) (op : ArithOp) (lhs rhs : Value) :
  Outcome (fun r h => r.Live h) C m (arithInts op lhs rhs m)
  := by
  unfold arithInts
  cases op.onInts lhs.toInt rhs.toInt with
  | ok i => exact .of_ok secure fun _ => nofun
  | error f => exact .of_fault secure _

/-- An operand of a list of live ones is live, also where there is none. -/
theorem hasLive_getD {vs : List Value} (live : ∀ v ∈ vs, m.HasLive v) (k : Nat) :
  m.HasLive (vs.getD k .zero)
  := by
  rw [List.getD_eq_getElem?_getD]
  cases found : vs[k]? with
  | none => exact fun _ => nofun
  | some v => exact live v (List.mem_of_getElem? found)

/-- Whatever a plain instruction computes from live operands, it leaves no dangling handle. -/
theorem outcome_compute (secure : m.Secure) {i : Instruction} {vs : List Value}
    (live : ∀ v ∈ vs, m.HasLive v) (fits : i.StoreFits vs m) :
  Outcome Outcome.YieldsLive (i.OutOfRange vs m) m (i.compute vs m)
  := by
  have operand := hasLive_getD live
  have small : i.number < 2 ^ 16 := (i.operand.getD 0).toNat_lt
  obtain ⟨pc, op, number⟩ := i
  cases op with
  | pushInt => exact (outcome_literal secure .int _).yields
  | pushDouble => exact (outcome_literal secure .double _).yields
  | pushString => exact (outcome_literal secure .string _).yields
  | pushStatic kind => exact (outcome_getGlobal secure _ id).yields
  | popStatic kind => exact (outcome_setGlobal secure (operand 0) _ id).ends
  | pushArray kind => exact (outcome_arrayGet secure (operand 0) _).yields
  | popArray kind => exact (outcome_arraySet secure (operand 1) (operand 0) _).ends
  | pushField kind =>
    exact (outcome_getField secure (operand 0) _
      fun class_ fields isInstance outside => ⟨class_, fields, isInstance, outside⟩).yields
  | popField kind =>
    exact (outcome_setField secure (operand 1) (operand 0) (fits kind rfl)
      fun class_ fields isInstance outside => ⟨class_, fields, isInstance, outside⟩).ends
  | arithInt op => exact (outcome_arithInts secure op _ _).yields
  | addString =>
    apply (outcome_textOrNull secure (operand 0)).bind
    intro a m₁ _ grows₁ secure₁ _
    apply (outcome_textOrNull secure₁ ((operand 1).grows grows₁)).bind
    intro b m₂ _ _ secure₂ _
    apply (outcome_newString secure₂ (a ++ b)).bind
    intro r m₃ _ _ secure₃ live
    refine .of_ok secure₃ fun small v same => ?_
    cases same
    exact live small
  | cast conversion => exact (outcome_convert secure conversion).yields
  | compareString op => exact (outcome_compareStrings secure (operand 0) (operand 1) op).yields
  | duplicate =>
    refine .of_ok secure fun small v same => ?_
    cases same
    exact operand 0 small
  | pushMethod =>
    apply (outcome_methodFunction secure (operand 0) _ id).map
    intro function h _ v same
    cases same
    exact nofun
  | new => exact (outcome_newInstance secure small id).yields
  | newArray kind => exact (outcome_newArray secure kind _ id).yields
  | newArrayLiteral kind =>
    exact (outcome_allocate secure fun small =>
      Object.intact_arrayOfValues kind fun v listed => live v listed small).yields
  | arraySize =>
    exact ((outcome_arrayLength secure (operand 0)).counts fun _ => rfl).yields
  | stringLength =>
    exact ((outcome_expectString secure (operand 0)).counts fun _ => rfl).yields
  | downCast => exact (outcome_downCast secure (operand 0) _).ends
  | instanceOf =>
    exact ((outcome_instanceOf secure (operand 0) _).counts fun _ => rfl).yields
  | pushInt1Byte | pushInt2Byte | pushFunction | pushDouble0 | pushDouble1 | pushNull
  | arithDouble op | minusInt | minusDouble | compareInt op | compareDouble op | eqObject
  | neObject | logicalNot => exact .of_word secure rfl
  | _ => exact .of_ok secure fun _ _ impossible => by cases impossible

end Instruction

/-! ### Natives -/

namespace Native

open Machine

/-- The procedure leaves the heap alone, yields no reference, and does not crash on as many live
arguments as it takes. -/
structure Benign (n : Native) : Prop where
  heap : ∀ args host, (stateOf (n.run args host)).heap = host.heap
  plain : ∀ args host v host', n.run args host = .ok v host' → v.handle? = none
  crash : ∀ args host host', n.run args host = .error .crash host' → args.length = n.arity →
    ∃ v ∈ args, ¬v.Live host.heap

variable {n : Native} {m : Machine} {C : Prop}

theorem Benign.outcome (benign : n.Benign) (secure : m.Secure) {args : List Value}
    (count : args.length = n.arity) (live : ∀ v ∈ args, m.HasLive v) :
  Outcome (fun r h => r.Live h) C m (onHost (n.run args) m)
  := by
  have heap := benign.heap args m.host
  rw [onHost_eq]
  cases ran : n.run args m.host with
  | ok v host =>
    rw [ran] at heap
    have same : ({ m with host := host } : Machine).heap = m.heap := heap
    refine ⟨?_, ⟨?_, ?_, ?_⟩, ?_, nofun⟩
    · exact same ▸ .refl m.heap
    · exact same ▸ secure.sound
    · exact (congrArg Heap.masks same).trans secure.masks
    · exact same ▸ secure.globals
    · intro a m' yielded _ handle refers
      cases yielded
      rw [benign.plain args m.host v host ran] at refers
      cases refers
  | error trap host =>
    rw [ran] at heap
    have same : ({ m with host := host } : Machine).heap = m.heap := heap
    refine ⟨?_, ⟨?_, ?_, ?_⟩, nofun, ?_⟩
    · exact same ▸ .refl m.heap
    · exact same ▸ secure.sound
    · exact (congrArg Heap.masks same).trans secure.masks
    · exact same ▸ secure.globals
    · intro m' failed small
      cases failed
      obtain ⟨v, listed, dead⟩ := benign.crash args m.host host ran count
      exact absurd (live v listed (same ▸ small)) dead

/-- A procedure that writes what it makes of the text of its argument. -/
theorem benign_of_writes {f : String → String}
    (writes : ∀ args host, n.run args host = written f args host) (arity : n.arity = 1) :
  n.Benign
  := by
  constructor
  case heap =>
    intro args host
    rw [writes]
    cases args with
    | nil => rfl
    | cons v rest =>
      unfold written
      dsimp only
      cases host.textOrNull v with
      | ok text => rfl
      | error trap => rfl
  case plain =>
    intro args host v host' run
    rw [writes] at run
    unfold written at run
    split at run
    · cases run
    · split at run
      all_goals cases run
      rfl
  case crash =>
    intro args host host' run count
    rw [writes] at run
    cases args with
    | nil =>
      rw [arity] at count
      cases count
    | cons v rest =>
      refine ⟨v, List.mem_cons_self, ?_⟩
      intro live
      unfold written at run
      dsimp only at run
      rw [Host.textOrNull_eq] at run
      cases refers : v.handle? with
      | none =>
        rw [refers] at run
        cases run
      | some handle =>
        obtain ⟨o, found⟩ := Option.isSome_iff_exists.1 (live handle refers)
        rw [refers] at run
        dsimp only at run
        rw [found] at run
        cases run

theorem benign_sqrt :
  sqrt.Benign
  where
  heap args host := by
    rw [sqrt_run_eq]
    split
    · rfl
    · split
      · rfl
      · rfl
  plain args host v host' run := by
    rw [sqrt_run_eq] at run
    split at run
    · cases run
    · split at run
      all_goals cases run
      rfl
  crash args host host' run count := by
    rw [sqrt_run_eq] at run
    split at run
    · cases count
    · split at run
      all_goals cases run

theorem benign_nowMillis :
  nowMillis.Benign
  where
  heap _ _ := rfl
  plain _ _ _ _ run := by
    cases run
    rfl
  crash _ _ _ run _ := by cases run

/-- The built-in procedures. -/
theorem benign_of_mem_defaults (listed : n ∈ Registry.defaults.natives) :
  n.Benign
  := by
  simp only [Registry.defaults, List.mem_cons, List.not_mem_nil, or_false] at listed
  rcases listed with rfl | rfl | rfl | rfl
  · apply benign_of_writes print_run_eq rfl
  · apply benign_of_writes println_run_eq rfl
  · apply benign_sqrt
  · apply benign_nowMillis

end Native

end Bytecode
