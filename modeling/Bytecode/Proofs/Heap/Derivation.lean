import Mathlib
import Bytecode.Machine.Object
import Bytecode.Proofs.Heap.Collector

/-!
# What becomes of objects

A program allocates objects and overwrites elements and fields of objects, and that is all it does
to its heap: the heaps that it makes of a given one are `Heap.Derived` from it. So an instance keeps
the number of fields with which it was made, which is that of its class, `Heap.Derived.shaped`. A
collection only takes objects away.
-/

namespace Bytecode

/-- An instance has as many fields as its class. -/
def Object.Shaped (exe : Executable) : Object → Prop
  | .inst class_ fields =>
    ∃ c, exe.classes[class_.toNat]? = some c ∧ fields.size = c.fields.length
  | _ => True

namespace Object

variable {exe : Executable} {o : Object}

theorem Shaped.setElement (shaped : o.Shaped exe) (i : Nat) (v : Value) :
  (o.setElement i v).Shaped exe
  := by
  cases o with
  | inst class_ fields => exact shaped
  | _ => trivial

theorem Shaped.setField (shaped : o.Shaped exe) (i : Nat) (v : Value) :
  (o.setField i v).Shaped exe
  := by
  cases o with
  | inst class_ fields =>
    obtain ⟨c, found, size⟩ := shaped
    exact ⟨c, found, Array.size_setIfInBounds.trans size⟩
  | _ => trivial

theorem shaped_zeroArray (exe : Executable) (kind : SlotKind) (size : Nat) :
  (Machine.zeroArray kind size).Shaped exe
  := by
  cases kind with
  | _ => trivial

theorem shaped_arrayOfValues (exe : Executable) (kind : SlotKind) (values : List Value) :
  (Machine.arrayOfValues kind values).Shaped exe
  := by
  cases kind with
  | _ => trivial

end Object

namespace Heap

variable {exe : Executable} {h h' h'' : Heap}

/-- Every instance has as many fields as its class. -/
def Shaped (exe : Executable) (h : Heap) : Prop :=
  ∀ i o, h.objectAt i = some o → o.Shaped exe

/-- What becomes of a heap by allocations and by changes of elements and fields. -/
inductive Derived (exe : Executable) (h : Heap) : Heap → Prop
  | refl : Derived exe h h
  | alloc {h' : Heap} {o : Object} :
      Derived exe h h' → o.Shaped exe → Derived exe h (h'.alloc o).2
  | setElement {h' : Heap} (handle : Handle) (i : Nat) (v : Value) :
      Derived exe h h' → Derived exe h (h'.update handle (Object.setElement i v))
  | setField {h' : Heap} (handle : Handle) (i : Nat) (v : Value) :
      Derived exe h h' → Derived exe h (h'.update handle (Object.setField i v))

theorem Derived.trans (first : Derived exe h h') (second : Derived exe h' h'') :
  Derived exe h h''
  := by
  induction second with
  | refl => exact first
  | alloc _ shaped ih => exact ih.alloc shaped
  | setElement handle i v _ ih => exact ih.setElement handle i v
  | setField handle i v _ ih => exact ih.setField handle i v

/-- After an allocation there are the new object and the old ones, whatever the free slots are. -/
theorem eq_or_of_objectAt_alloc {o o' : Object} {i : Nat}
    (found : (h.alloc o).2.objectAt i = some o') :
  o' = o ∨ h.objectAt i = some o'
  := by
  unfold objectAt alloc at found
  cases free : h.free with
  | nil =>
    simp only [free, Array.getElem?_push] at found
    split at found
    · cases found
      exact .inl rfl
    · exact .inr found
  | cons index rest =>
    simp only [free, Array.getElem?_setIfInBounds] at found
    split at found
    · split at found
      · cases found
        exact .inl rfl
      · cases found
    · exact .inr found

theorem Shaped.alloc {o : Object} (shaped : h.Shaped exe) (new : o.Shaped exe) :
  (h.alloc o).2.Shaped exe
  := by
  intro i o' found
  rcases eq_or_of_objectAt_alloc found with rfl | old
  · exact new
  · exact shaped i o' old

theorem Shaped.update (shaped : h.Shaped exe) (handle : Handle) {f : Object → Object}
    (keeps : ∀ o : Object, o.Shaped exe → (f o).Shaped exe) :
  (h.update handle f).Shaped exe
  := by
  intro i o found
  rw [objectAt_update] at found
  split at found
  · obtain ⟨old, there, rfl⟩ := Option.map_eq_some_iff.1 found
    exact keeps old (shaped i old there)
  · exact shaped i o found

/-- What a program does to its heap leaves every instance the fields of its class. -/
theorem Derived.shaped (derived : Derived exe h h') (shaped : h.Shaped exe) :
  h'.Shaped exe
  := by
  induction derived with
  | refl => exact shaped
  | alloc _ new ih => exact ih.alloc new
  | setElement handle i v _ ih => exact ih.update handle fun o old => old.setElement i v
  | setField handle i v _ ih => exact ih.update handle fun o old => old.setField i v

/-- What is left after a collection was there before it. -/
theorem objectAt_of_reclaim {roots : List Handle} {i : Nat} {o : Object}
    (found : (h.reclaim roots).2.objectAt i = some o) :
  h.objectAt i = some o
  := by
  change (h.mark roots).sweep.2.objectAt i = some o at found
  rw [objectAt_sweep_eq_some_iff] at found
  rw [← (mark_sameButMarks h roots).objectAt]
  exact objectAt_eq_some_iff.2 ⟨true, found⟩

theorem Shaped.reclaim (shaped : h.Shaped exe) (roots : List Handle) :
  (h.reclaim roots).2.Shaped exe
  := fun i o found => shaped i o (objectAt_of_reclaim found)

theorem Shaped.new (exe : Executable) (threshold increment : Nat) (masks : Array (List Bool)) :
  (Heap.new threshold increment masks).Shaped exe
  := by
  intro i o found
  cases found

/-! ### Default values -/

theorem Derived.allocString (derived : Derived exe h h') (text : String) :
  Derived exe h (h'.allocString text).2
  := derived.alloc trivial

theorem Derived.defaultValue (derived : Derived exe h h') (ty : Ty) :
  Derived exe h (h'.defaultValue ty).2
  := by
  cases ty with
  | string => exact derived.allocString ""
  | _ => exact derived

theorem length_defaultValues (tys : List Ty) (h : Heap) :
  (h.defaultValues tys).1.length = tys.length
  := by
  induction tys generalizing h with
  | nil => rfl
  | cons ty rest ih => exact congrArg Nat.succ (ih _)

theorem Derived.defaultValues (derived : Derived exe h h') (tys : List Ty) :
  Derived exe h (h'.defaultValues tys).2
  := by
  induction tys generalizing h' with
  | nil => exact derived
  | cons ty rest ih => exact ih (derived.defaultValue ty)

end Heap

end Bytecode
