import Mathlib
import Bytecode.Heap.Collect

/-!
# The slab of a heap

The slots of a heap as a map `objectAt` from indices to objects, and what the operations do to
it. `WellFormed` relates the slots to the free list and to the number of objects: exactly the
empty slots are free, each of them once, and between operations no object is marked. It holds
of every heap that allocations, changes of objects and collections lead to, the heaps that are
`Reachable`.
-/

namespace Bytecode

theorem Handle.eq_of_index_eq {a b : Handle} (same : a.index = b.index) :
  a = b
  := by
  obtain ⟨a⟩ := a
  obtain ⟨b⟩ := b
  exact congrArg Handle.mk (UInt32.toNat_inj.1 same)

namespace Heap

variable {h : Heap} {i : Nat}

/-- The object in the slot with the given index. -/
def objectAt (h : Heap) (index : Nat) : Option Object := ((h.slots[index]?).join).map (·.object)

/-- The object in the slot with the given index is marked. -/
def MarkedAt (h : Heap) (index : Nat) : Prop := ∃ object, h.slots[index]? = some (some ⟨object, true⟩)

/-- The index of the slot that the next object takes. -/
def nextIndex (h : Heap) : Nat := h.free.head?.getD h.slots.size

/-- The number of slots that hold an object. -/
def occupiedCount (h : Heap) : Nat := h.slots.countP Option.isSome

/-- Exactly the empty slots are free, the objects are counted, and none is marked. -/
structure WellFormed (h : Heap) : Prop where
  free_nodup : h.free.Nodup
  mem_free : ∀ i, i ∈ h.free ↔ h.slots[i]? = some none
  live_eq : h.live = h.occupiedCount
  unmarked : ∀ i, ¬h.MarkedAt i

/-- The heaps that a sequence of allocations, changes of objects and collections leads to. -/
inductive Reachable : Heap → Prop
  | new (threshold increment : Nat) (masks : Array (List Bool)) :
      Reachable (new threshold increment masks)
  | alloc {h : Heap} (object : Object) : Reachable h → Reachable (h.alloc object).2
  | update {h : Heap} (handle : Handle) (f : Object → Object) :
      Reachable h → Reachable (h.update handle f)
  | collect {h h' : Heap} {roots : List Handle} {count : Nat} :
      Reachable h → collect roots h = .ok count h' → Reachable h'

theorem get?_eq_objectAt (h : Heap) (handle : Handle) :
  h.get? handle = h.objectAt handle.index
  := rfl

/-- A slot holds an object when its occupant is that object, marked or not. -/
theorem objectAt_eq_some_iff {object : Object} :
  h.objectAt i = some object ↔ ∃ marked, h.slots[i]? = some (some ⟨object, marked⟩)
  := by
  unfold objectAt
  rcases h.slots[i]? with _ | _ | ⟨o, marked⟩
  · simp
  · simp
  · simp

theorem objectAt_eq_none_of_slot (empty : h.slots[i]? = some none) :
  h.objectAt i = none
  := by
  simp [objectAt, empty]

theorem isSome_objectAt_iff :
  (h.objectAt i).isSome ↔ ∃ occupant, h.slots[i]? = some (some occupant)
  := by
  unfold objectAt
  rcases h.slots[i]? with _ | _ | occupant
  · simp
  · simp
  · simp

theorem lt_size_of_objectAt (holds : (h.objectAt i).isSome) :
  i < h.slots.size
  := by
  obtain ⟨occupant, slot⟩ := isSome_objectAt_iff.1 holds
  exact (Array.getElem?_eq_some_iff.1 slot).1

/-- Heaps whose slots are occupied alike have as many objects. -/
theorem occupiedCount_congr {h' : Heap}
    (alike : ∀ i : Nat, (h'.slots[i]?).map Option.isSome = (h.slots[i]?).map Option.isSome) :
  h'.occupiedCount = h.occupiedCount
  := by
  have same : h'.slots.map Option.isSome = h.slots.map Option.isSome := by
    apply Array.ext_getElem?
    intro i
    simpa using alike i
  have count (slots : Array (Option Occupant)) :
      slots.countP Option.isSome = (slots.map Option.isSome).countP id := by
    rw [Array.countP_map]
    rfl
  rw [occupiedCount, occupiedCount, count, count, same]

/-! ### Allocation -/

theorem alloc_fst (h : Heap) (object : Object) :
  (h.alloc object).1 = .ofIndex h.nextIndex
  := by
  unfold alloc nextIndex
  rcases h.free with _ | ⟨index, free⟩
  · rfl
  · rfl

theorem alloc_masks (h : Heap) (object : Object) :
  (h.alloc object).2.masks = h.masks
  := by
  unfold alloc
  rcases h.free with _ | ⟨index, free⟩
  · rfl
  · rfl

/-- The slot that the next object takes holds none. -/
theorem WellFormed.objectAt_nextIndex (wf : WellFormed h) :
  h.objectAt h.nextIndex = none
  := by
  unfold nextIndex
  rcases free : h.free with _ | ⟨index, rest⟩
  · simp [objectAt]
  · exact objectAt_eq_none_of_slot ((wf.mem_free index).1 (by simp [free]))

/-- An allocation fills the next slot and leaves the others alone. -/
theorem WellFormed.slots_alloc (wf : WellFormed h) (object : Object) (i : Nat) :
  (h.alloc object).2.slots[i]?
    = if i = h.nextIndex then some (some ⟨object, false⟩) else h.slots[i]?
  := by
  unfold alloc nextIndex
  rcases free : h.free with _ | ⟨index, rest⟩
  · simp only [List.head?_nil, Option.getD_none]
    rw [Array.getElem?_push]
    rfl
  · have inBounds := (Array.getElem?_eq_some_iff.1 ((wf.mem_free index).1 (by simp [free]))).1
    simp only [List.head?_cons, Option.getD_some]
    rw [Array.getElem?_setIfInBounds]
    by_cases same : index = i
    · subst same
      simp [inBounds]
    · simp [same, Ne.symm same]

/-- An allocation adds the object at the next index and changes no other. -/
theorem WellFormed.objectAt_alloc (wf : WellFormed h) (object : Object) (i : Nat) :
  (h.alloc object).2.objectAt i = if i = h.nextIndex then some object else h.objectAt i
  := by
  rw [objectAt, wf.slots_alloc]
  split
  · rfl
  · rfl

/-- Every object is still there after an allocation. -/
theorem WellFormed.objectAt_alloc_of_some (wf : WellFormed h) (object : Object) {o : Object}
    (holds : h.objectAt i = some o) :
  (h.alloc object).2.objectAt i = some o
  := by
  rw [wf.objectAt_alloc, if_neg, holds]
  rintro rfl
  rw [wf.objectAt_nextIndex] at holds
  contradiction

/-- The slab grows only when no slot is free. -/
theorem slots_size_alloc (h : Heap) (object : Object) :
  (h.alloc object).2.slots.size = if h.free = [] then h.slots.size + 1 else h.slots.size
  := by
  unfold alloc
  rcases h.free with _ | ⟨index, rest⟩
  · simp
  · simp

theorem WellFormed.nextIndex_lt_size_alloc (wf : WellFormed h) (object : Object) :
  h.nextIndex < (h.alloc object).2.slots.size
  := by
  apply lt_size_of_objectAt
  rw [wf.objectAt_alloc, if_pos rfl]
  rfl

/-- The handle of a new object finds it, as long as the indices of slots have 32 bits. -/
theorem WellFormed.get?_alloc_fst (wf : WellFormed h) (object : Object)
    (small : (h.alloc object).2.slots.size ≤ 2 ^ 32) :
  (h.alloc object).2.get? (h.alloc object).1 = some object
  := by
  have inBounds := wf.nextIndex_lt_size_alloc object
  rw [alloc_fst, get?_eq_objectAt, Handle.index_ofIndex (by omega), wf.objectAt_alloc, if_pos rfl]

theorem WellFormed.occupiedCount_alloc (wf : WellFormed h) (object : Object) :
  (h.alloc object).2.occupiedCount = h.occupiedCount + 1
  := by
  unfold occupiedCount alloc
  rcases free : h.free with _ | ⟨index, rest⟩
  · simp
  · have empty := (wf.mem_free index).1 (by simp [free])
    obtain ⟨inBounds, holds⟩ := Array.getElem?_eq_some_iff.1 empty
    simp only [Array.setIfInBounds, inBounds, ↓reduceDIte]
    rw [Array.countP_set inBounds, holds]
    simp

theorem WellFormed.alloc {h : Heap} (wf : WellFormed h) (object : Object) :
  WellFormed (h.alloc object).2
  := by
  have live : (h.alloc object).2.live = h.live + 1 := by
    unfold Heap.alloc
    rcases h.free with _ | ⟨index, rest⟩
    · rfl
    · rfl
  have free : (h.alloc object).2.free = h.free.tail := by
    unfold Heap.alloc
    rcases h.free with _ | ⟨index, rest⟩
    · rfl
    · rfl
  constructor
  · rw [free]
    exact wf.free_nodup.sublist (List.tail_sublist _)
  · intro i
    rw [free, wf.slots_alloc]
    have same := wf.mem_free i
    have nodup := wf.free_nodup
    unfold nextIndex
    rcases freed : h.free with _ | ⟨index, rest⟩
    · rw [freed] at same
      by_cases last : i = h.slots.size
      · simp [last]
      · simpa [last] using same
    · rw [freed] at same nodup
      by_cases taken : i = index
      · subst taken
        simpa using (List.nodup_cons.1 nodup).1
      · simpa [taken] using same
  · rw [live, wf.live_eq, wf.occupiedCount_alloc]
  · rintro i ⟨o, marked⟩
    rw [wf.slots_alloc] at marked
    split at marked
    · simp at marked
    · exact wf.unmarked i ⟨o, marked⟩

/-! ### Changes of objects -/

theorem slots_update (h : Heap) (handle : Handle) (f : Object → Object) (i : Nat) :
  (h.update handle f).slots[i]?
    = if handle.index = i then
        (h.slots[i]?).map fun slot =>
          slot.map fun occupant => { occupant with object := f occupant.object }
      else h.slots[i]?
  := by
  rw [update, Array.getElem?_modify]

/-- A change of an object leaves the others alone. -/
theorem objectAt_update (h : Heap) (handle : Handle) (f : Object → Object) (i : Nat) :
  (h.update handle f).objectAt i
    = if handle.index = i then (h.objectAt i).map f else h.objectAt i
  := by
  unfold objectAt
  rw [slots_update]
  rcases h.slots[i]? with _ | _ | occupant
  · simp
  · simp
  · by_cases same : handle.index = i
    · simp [same]
    · simp [same]

theorem isSome_objectAt_update (h : Heap) (handle : Handle) (f : Object → Object) (i : Nat) :
  ((h.update handle f).objectAt i).isSome = (h.objectAt i).isSome
  := by
  rw [objectAt_update]
  split
  · simp
  · rfl

theorem WellFormed.update (wf : WellFormed h) (handle : Handle) (f : Object → Object) :
  WellFormed (h.update handle f)
  := by
  constructor
  · exact wf.free_nodup
  · intro i
    refine Iff.trans (wf.mem_free i) ?_
    rw [slots_update]
    rcases h.slots[i]? with _ | _ | occupant
    · simp
    · simp
    · by_cases same : handle.index = i
      · simp [same]
      · simp [same]
  · refine Eq.trans wf.live_eq (Eq.symm ?_)
    apply occupiedCount_congr
    intro i
    rw [slots_update]
    rcases h.slots[i]? with _ | _ | occupant
    · simp
    · simp
    · by_cases same : handle.index = i
      · simp [same]
      · simp [same]
  · rintro i ⟨o, marked⟩
    rw [slots_update] at marked
    apply wf.unmarked i
    split at marked
    · rcases slot : h.slots[i]? with _ | _ | occupant
      · simp [slot] at marked
      · simp [slot] at marked
      · simp only [slot, Option.map_some, Option.some.injEq, Occupant.mk.injEq] at marked
        use occupant.object
        rw [slot, ← marked.2]
    · use o

theorem WellFormed.new (threshold increment : Nat) (masks : Array (List Bool)) :
  WellFormed (new threshold increment masks)
  := by
  constructor
  · exact List.nodup_nil
  · simp [Heap.new]
  · rfl
  · rintro i ⟨o, marked⟩
    simp [Heap.new] at marked

end Heap

end Bytecode
