import Bytecode.Heap.Basic

/-!
# Collection

A collection marks the objects that can be reached from the roots and frees the others. An
object refers to others by the elements of an array of references and by those fields of an
instance that its class declares to hold references.
-/

namespace Bytecode

namespace Heap

/-- The handles that an object refers to. -/
def references (h : Heap) : Object → List Handle
  | .refs items => items.toList.filterMap id
  | .inst class_ fields =>
    match h.masks[class_.toNat]? with
    | none => []
    | some mask =>
      (fields.toList.zip mask).filterMap fun (v, isReference) =>
        if isReference then v.handle? else none
  | _ => []

/-- Set the mark of the object with a handle. -/
def setMark (handle : Handle) (h : Heap) : Heap :=
  { h with
    slots := h.slots.modify handle.index fun slot =>
      slot.map fun occupant => { occupant with marked := true } }

/-- The slot holds an object that is not marked. -/
def isUnmarked (slot : Option Occupant) : Bool := slot.any fun occupant => !occupant.marked

/-- The number of objects that are not marked. -/
def unmarkedCount (h : Heap) : Nat := h.slots.countP isUnmarked

/-- Marking an object that is not marked leaves one object fewer without a mark. -/
theorem unmarkedCount_setMark {h : Heap} {handle : Handle} {occupant : Occupant}
    (found : h.slot? handle = some occupant) (unmarked : occupant.marked = false) :
    (h.setMark handle).unmarkedCount < h.unmarkedCount := by
  have slot : h.slots[handle.index]? = some (some occupant) := by
    simpa [slot?, Option.join_eq_some_iff] using found
  obtain ⟨inBounds, holds⟩ := Array.getElem?_eq_some_iff.1 slot
  have marked : (h.setMark handle).slots
      = h.slots.set handle.index (some { occupant with marked := true }) := by
    apply Array.ext_getElem?
    intro i
    simp only [setMark, Array.getElem?_modify, Array.getElem?_set]
    by_cases same : handle.index = i
    · subst same
      simp [holds, inBounds]
    · simp [same]
  have counted : 0 < h.slots.countP isUnmarked := by
    apply Array.countP_pos_iff.2
    refine ⟨some occupant, Array.mem_of_getElem? slot, ?_⟩
    simp [isUnmarked, unmarked]
  rw [unmarkedCount, unmarkedCount, marked, Array.countP_set inBounds, holds]
  simp only [isUnmarked, Option.any_some, unmarked]
  grind

/-- Mark the objects reached from the pending handles. -/
def mark (h : Heap) (pending : List Handle) : Heap :=
  match pending with
  | [] => h
  | handle :: rest =>
    match found : h.slot? handle with
    | none => h.mark rest
    | some occupant =>
      if unmarked : occupant.marked = false then
        let references := h.references occupant.object
        (h.setMark handle).mark (references ++ rest)
      else h.mark rest
termination_by (h.unmarkedCount, pending.length)
decreasing_by
  · exact Prod.Lex.right _ (Nat.lt_succ_self _)
  · exact Prod.Lex.left _ _ (unmarkedCount_setMark found unmarked)
  · exact Prod.Lex.right _ (Nat.lt_succ_self _)

/-- The slots with an object that is not marked, in increasing order. -/
def garbage (h : Heap) : List Nat :=
  h.slots.toList.zipIdx.filterMap fun (slot, index) => if isUnmarked slot then some index else none

/-- What a sweep leaves in a slot: a marked object, which loses its mark. -/
def sweepSlot : Option Occupant → Option Occupant
  | some ⟨object, true⟩ => some ⟨object, false⟩
  | _ => none

/-- Free the objects that are not marked and count them. The slots are freed in increasing
order. -/
def sweep (h : Heap) : Nat × Heap :=
  let dead := h.garbage
  (dead.length,
    { h with
      slots := h.slots.map sweepSlot
      free := dead.reverse ++ h.free
      live := h.live - dead.length })

/-- Free what cannot be reached from the roots and count it. -/
def reclaim (roots : List Handle) (h : Heap) : Nat × Heap :=
  let (count, h) := (h.mark roots).sweep
  (count, { h with cycles := h.cycles + 1, freed := h.freed + count })

/-- A full collection, which yields the number of objects freed and raises the threshold.
The threshold has 64 bits. -/
def collect (roots : List Handle) : EStateM Trap Heap Nat :=
  fun h =>
    let (count, h) := h.reclaim roots
    if h.threshold + h.increment < 1 <<< 64 then
      .ok count { h with threshold := h.threshold + h.increment }
    else .error .crash h

end Heap

end Bytecode
