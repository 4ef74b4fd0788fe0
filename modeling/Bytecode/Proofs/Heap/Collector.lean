import Mathlib
import Bytecode.Proofs.Heap.Slab

/-!
# Exactness of collections

An object refers to others by the elements of an array of references and by those fields of an
instance that its class declares to hold references (`Refers`); `Reaches` closes the roots under
this. A collection keeps exactly the objects that are reached from the roots, and leaves each of
them as it was, in its slot and without a mark.

Marking is described by an invariant of the pending handles: what a marked object refers to is
marked or pending (`Closed`). When no handle is pending any more, the marked objects are closed
under references.
-/

namespace Bytecode

namespace Heap

variable {h h' : Heap} {i : Nat} {object : Object} {roots pending : List Handle} {a handle : Handle}

/-- The object refers to the handle, by an element or by a field that holds references. -/
inductive Refers (masks : Array (List Bool)) : Object → Handle → Prop
  | element {items : Array (Option Handle)} {i : Nat} {b : Handle} :
      items[i]? = some (some b) → Refers masks (.refs items) b
  | field {class_ : UInt16} {fields : Array Value} {mask : List Bool} {i : Nat} {b : Handle} :
      masks[class_.toNat]? = some mask → mask[i]? = some true → fields[i]? = some (.ref b) →
        Refers masks (.inst class_ fields) b

/-- The handles of objects that are roots or that an object reached before refers to. -/
inductive Reaches (h : Heap) (roots : List Handle) : Handle → Prop
  | root {a : Handle} : a ∈ roots → (h.get? a).isSome → Reaches h roots a
  | step {a b : Handle} {object : Object} :
      Reaches h roots a → h.get? a = some object → Refers h.masks object b →
        (h.get? b).isSome → Reaches h roots b

/-- Marking follows exactly the references of an object. -/
theorem mem_references_iff {b : Handle} :
  b ∈ h.references object ↔ Refers h.masks object b
  := by
  constructor
  · intro listed
    cases object with
    | refs items =>
      have element : some b ∈ items.toList := by simpa [references] using listed
      obtain ⟨i, item⟩ := List.mem_iff_getElem?.1 element
      apply Refers.element (i := i)
      simpa using item
    | inst class_ fields =>
      simp only [references] at listed
      rcases declared : h.masks[class_.toNat]? with _ | mask
      · simp [declared] at listed
      · simp only [declared, List.mem_filterMap] at listed
        obtain ⟨⟨v, isReference⟩, zipped, selected⟩ := listed
        obtain ⟨i, pair⟩ := List.mem_iff_getElem?.1 zipped
        obtain ⟨field, bit⟩ := List.getElem?_zip_eq_some.1 pair
        cases isReference with
        | false => simp at selected
        | true =>
          cases v with
          | ref a =>
            obtain rfl : a = b := by simpa [Value.handle?] using selected
            exact Refers.field declared bit (by simpa using field)
          | word bits | null => simp [Value.handle?] at selected
    | string text | ints items | doubles items => simp [references] at listed
  · intro refers
    cases refers with
    | @element items i _ item =>
      simp only [references, List.mem_filterMap, id_eq, exists_eq_right]
      apply List.mem_of_getElem? (i := i)
      simpa using item
    | @field class_ fields mask i _ declared bit field =>
      simp only [references, declared, List.mem_filterMap]
      use (.ref b, true)
      constructor
      · apply List.mem_of_getElem? (i := i)
        apply List.getElem?_zip_eq_some.2
        exact ⟨by simpa using field, bit⟩
      · rfl

/-! ### Heaps that differ in marks -/

/-- The second heap differs from the first one at most in the marks of its objects. -/
structure SameButMarks (h h' : Heap) : Prop where
  rest : h' = { h with slots := h'.slots }
  objects : ∀ i : Nat,
    (h'.slots[i]?).map (Option.map Occupant.object) = (h.slots[i]?).map (Option.map Occupant.object)

theorem SameButMarks.refl (h : Heap) :
  SameButMarks h h
  := ⟨rfl, fun _ => rfl⟩

theorem SameButMarks.trans {h₁ h₂ h₃ : Heap} (first : SameButMarks h₁ h₂)
    (second : SameButMarks h₂ h₃) :
  SameButMarks h₁ h₃
  := by
  constructor
  · rw [second.rest, first.rest]
  · intro i
    rw [second.objects, first.objects]

section

variable (same : SameButMarks h h')
include same

theorem SameButMarks.masks :
  h'.masks = h.masks
  := by
  rw [same.rest]

theorem SameButMarks.objectAt (i : Nat) :
  h'.objectAt i = h.objectAt i
  := by
  have join (slot : Option (Option Occupant)) :
      slot.join.map (·.object) = (slot.map (Option.map Occupant.object)).join := by
    rcases slot with _ | _ | occupant
    · rfl
    · rfl
    · rfl
  rw [Heap.objectAt, Heap.objectAt, join, join, same.objects]

theorem SameButMarks.get? (handle : Handle) :
  h'.get? handle = h.get? handle
  := same.objectAt handle.index

theorem SameButMarks.slots_eq_none (i : Nat) :
  h'.slots[i]? = some none ↔ h.slots[i]? = some none
  := by
  have isNone (slot : Option (Option Occupant)) :
      slot = some none ↔ slot.map (Option.map Occupant.object) = some none := by
    rcases slot with _ | _ | occupant
    · simp
    · simp
    · simp
  rw [isNone, same.objects, ← isNone]

theorem SameButMarks.occupiedCount :
  h'.occupiedCount = h.occupiedCount
  := by
  apply occupiedCount_congr
  intro i
  have slot := congrArg (Option.map Option.isSome) (same.objects i)
  simpa [Function.comp_def] using slot

/-- The handles that are reached do not depend on marks. -/
theorem SameButMarks.reaches (reached : Reaches h' roots a) :
  Reaches h roots a
  := by
  induction reached with
  | root isRoot holds =>
    rw [same.get?] at holds
    exact .root isRoot holds
  | step _ found refers holds ih =>
    rw [same.get?] at found holds
    rw [same.masks] at refers
    exact .step ih found refers holds

end

/-! ### Marking -/

theorem slots_setMark (h : Heap) (handle : Handle) (i : Nat) :
  (h.setMark handle).slots[i]?
    = if handle.index = i then
        (h.slots[i]?).map (Option.map fun occupant => { occupant with marked := true })
      else h.slots[i]?
  := by
  rw [setMark, Array.getElem?_modify]

theorem setMark_sameButMarks (h : Heap) (handle : Handle) :
  SameButMarks h (h.setMark handle)
  := by
  constructor
  · rfl
  · intro i
    rw [slots_setMark]
    split
    · rcases h.slots[i]? with _ | _ | occupant
      · rfl
      · rfl
      · rfl
    · rfl

/-- Setting a mark marks the object with the handle and no other. -/
theorem markedAt_setMark :
  (h.setMark handle).MarkedAt i
    ↔ h.MarkedAt i ∨ (handle.index = i ∧ (h.objectAt i).isSome)
  := by
  rw [isSome_objectAt_iff]
  unfold MarkedAt
  rw [slots_setMark]
  by_cases same : handle.index = i
  · rcases h.slots[i]? with _ | _ | ⟨o, marked⟩
    · simp [same]
    · simp [same]
    · simp [same]
  · simp [same]

theorem slot?_eq_some_iff {occupant : Occupant} :
  h.slot? handle = some occupant ↔ h.slots[handle.index]? = some (some occupant)
  := by
  rw [slot?, Option.join_eq_some_iff]

/-- An object whose mark is set is marked. -/
theorem markedAt_of_slot? {occupant : Occupant} (found : h.slot? handle = some occupant)
    (marked : ¬occupant.marked = false) :
  h.MarkedAt handle.index
  := by
  use occupant.object
  rw [slot?_eq_some_iff.1 found, ← eq_true_of_ne_false marked]

theorem mark_sameButMarks (h : Heap) (pending : List Handle) :
  SameButMarks h (h.mark pending)
  := by
  fun_induction mark h pending with
  | case1 h => exact .refl h
  | case2 h handle rest found ih => exact ih
  | case3 h handle rest occupant found unmarked references ih =>
    exact (setMark_sameButMarks h handle).trans ih
  | case4 h handle rest occupant found marked ih => exact ih

/-- Marking takes no mark away. -/
theorem markedAt_mark_of_markedAt (marked : h.MarkedAt i) :
  (h.mark pending).MarkedAt i
  := by
  fun_induction mark h pending with
  | case1 h => exact marked
  | case2 h handle rest found ih | case4 h handle rest occupant found _ ih => exact ih marked
  | case3 h handle rest occupant found unmarked references ih =>
    apply ih
    exact markedAt_setMark.2 (.inl marked)

/-- More roots reach more. -/
theorem Reaches.mono {roots' : List Handle} (sub : roots ⊆ roots') (reached : Reaches h roots a) :
  Reaches h roots' a
  := by
  induction reached with
  | root isRoot holds => exact .root (sub isRoot) holds
  | step _ found refers holds ih => exact .step ih found refers holds

/-- What is reached from the references of an object is reached from the object. -/
theorem Reaches.of_references {rest : List Handle} (found : h.get? a = some object) {b : Handle}
    (reached : Reaches h (h.references object ++ rest) b) :
  Reaches h (a :: rest) b
  := by
  induction reached with
  | root isRoot holds =>
    rcases List.mem_append.1 isRoot with referred | isRest
    · apply Reaches.step (a := a) _ found (mem_references_iff.1 referred) holds
      exact .root List.mem_cons_self (by rw [found]; rfl)
    · exact .root (List.mem_cons_of_mem _ isRest) holds
  | step _ found refers holds ih => exact .step ih found refers holds

/-- Every new mark is on an object that is reached from the pending handles. -/
theorem reaches_of_markedAt_mark (marked : (h.mark pending).MarkedAt i) :
  h.MarkedAt i ∨ ∃ a : Handle, a.index = i ∧ Reaches h pending a
  := by
  fun_induction mark h pending with
  | case1 h => exact .inl marked
  | case2 h handle rest found ih | case4 h handle rest occupant found _ ih =>
    apply (ih marked).imp_right
    rintro ⟨a, index, reached⟩
    exact ⟨a, index, reached.mono (List.subset_cons_self _ _)⟩
  | case3 h handle rest occupant found unmarked references ih =>
    have get : h.get? handle = some occupant.object := by simp [get?, found]
    have isRoot : Reaches h (handle :: rest) handle :=
      .root List.mem_cons_self (by rw [get]; rfl)
    rcases ih marked with before | ⟨a, index, reached⟩
    · apply (markedAt_setMark.1 before).imp_right
      rintro ⟨index, -⟩
      exact ⟨handle, index, isRoot⟩
    · right
      use a, index
      apply Reaches.of_references get
      exact (setMark_sameButMarks h handle).reaches reached

/-- Every object with a pending handle is marked in the end. -/
theorem markedAt_mark_of_mem (isPending : a ∈ pending) (holds : (h.get? a).isSome) :
  (h.mark pending).MarkedAt a.index
  := by
  fun_induction mark h pending with
  | case1 h => simp at isPending
  | case2 h handle rest found ih =>
    rcases List.mem_cons.1 isPending with rfl | isRest
    · simp [get?, found] at holds
    · exact ih isRest holds
  | case3 h handle rest occupant found unmarked references ih =>
    rcases List.mem_cons.1 isPending with rfl | isRest
    · apply markedAt_mark_of_markedAt
      exact markedAt_setMark.2 (.inr ⟨rfl, holds⟩)
    · apply ih (List.mem_append_right _ isRest)
      rwa [(setMark_sameButMarks h handle).get?]
  | case4 h handle rest occupant found marked ih =>
    rcases List.mem_cons.1 isPending with rfl | isRest
    · apply markedAt_mark_of_markedAt
      exact markedAt_of_slot? found marked
    · exact ih isRest holds

/-- What a marked object refers to is marked or pending, if it exists. -/
def Closed (h : Heap) (pending : List Handle) : Prop :=
  ∀ (a b : Handle) (object : Object), h.MarkedAt a.index → h.get? a = some object →
    Refers h.masks object b → (h.get? b).isSome → h.MarkedAt b.index ∨ b ∈ pending

/-- When marking comes to its end, what a marked object refers to is marked. -/
theorem Closed.mark {h : Heap} {pending : List Handle} (closed : Closed h pending) :
  Closed (h.mark pending) []
  := by
  fun_induction Heap.mark h pending with
  | case1 h => exact closed
  | case2 h handle rest found ih =>
    apply ih
    intro a b object marked get refers holds
    rcases closed a b object marked get refers holds with done | isPending
    · exact .inl done
    · rcases List.mem_cons.1 isPending with rfl | isRest
      · simp [get?, found] at holds
      · exact .inr isRest
  | case3 h handle rest occupant found unmarked references ih =>
    apply ih
    have same := setMark_sameButMarks h handle
    intro a b object marked get refers holds
    rw [same.get?] at get holds
    rw [same.masks] at refers
    rw [markedAt_setMark] at marked ⊢
    rcases marked with before | ⟨index, -⟩
    · -- An object marked earlier: only the handle taken from the list is no longer pending.
      rcases closed a b object before get refers holds with done | isPending
      · exact .inl (.inl done)
      · rcases List.mem_cons.1 isPending with rfl | isRest
        · exact .inl (.inr ⟨rfl, holds⟩)
        · exact .inr (List.mem_append_right _ isRest)
    · -- The object marked now: all that it refers to becomes pending.
      right
      apply List.mem_append_left
      have get' : h.get? a = some occupant.object := by
        rw [get?_eq_objectAt, ← index, ← get?_eq_objectAt]
        simp [get?, found]
      rw [get] at get'
      cases get'
      exact mem_references_iff.2 refers
  | case4 h handle rest occupant found alreadyMarked ih =>
    apply ih
    intro a b object marked get refers holds
    rcases closed a b object marked get refers holds with done | isPending
    · exact .inl done
    · rcases List.mem_cons.1 isPending with rfl | isRest
      · exact .inl (markedAt_of_slot? found alreadyMarked)
      · exact .inr isRest

/-- From a heap without marks, exactly the objects that are reached from the roots are marked. -/
theorem markedAt_mark_iff (unmarked : ∀ i, ¬h.MarkedAt i) :
  (h.mark roots).MarkedAt i ↔ ∃ a : Handle, a.index = i ∧ Reaches h roots a
  := by
  constructor
  · intro marked
    exact (reaches_of_markedAt_mark marked).resolve_left (unmarked i)
  · rintro ⟨a, rfl, reached⟩
    have same := mark_sameButMarks h roots
    have closed : Closed (h.mark roots) [] := by
      apply Closed.mark
      intro a b object marked
      exact absurd marked (unmarked _)
    induction reached with
    | root isRoot holds => exact markedAt_mark_of_mem isRoot holds
    | @step a b object _ found refers holds ih =>
      rw [← same.get?] at found holds
      rw [← same.masks] at refers
      exact (closed a b object ih found refers holds).resolve_right List.not_mem_nil

/-! ### Sweeping -/

/-- The positions of the items that have a property, counted from `start`. -/
private theorem filterMap_zipIdx_eq_filter_range' {α : Type} (p : α → Bool) (items : List α)
    (start : Nat) :
  (items.zipIdx start).filterMap (fun (item, i) => if p item then some i else none)
    = (List.range' start items.length).filter fun i => (items[i - start]?).any p
  := by
  induction items generalizing start with
  | nil => rfl
  | cons item rest ih =>
    have shift : (List.range' (start + 1) rest.length).filter
        (fun i => ((item :: rest)[i - start]?).any p)
          = (List.range' (start + 1) rest.length).filter
              fun i => (rest[i - (start + 1)]?).any p := by
      apply List.filter_congr
      intro i inRange
      obtain ⟨lower, -⟩ := List.mem_range'_1.1 inRange
      rw [show i - start = i - (start + 1) + 1 by omega, List.getElem?_cons_succ]
    rw [List.zipIdx_cons, List.length_cons, List.range'_succ, List.filterMap_cons,
      List.filter_cons, shift, ← ih]
    by_cases selected : p item
    · simp [selected]
    · simp [selected]

private theorem countP_zipIdx {α : Type} (p : α → Bool) (items : List α) :
  items.zipIdx.countP (p ·.1) = items.countP p
  := by
  have projected := List.countP_map (p := p) (f := Prod.fst) (l := items.zipIdx)
  rw [List.zipIdx_map_fst] at projected
  exact projected.symm

theorem garbage_eq_filter (h : Heap) :
  h.garbage = (List.range h.slots.size).filter fun i => (h.slots[i]?).any isUnmarked
  := by
  have positions := filterMap_zipIdx_eq_filter_range' isUnmarked h.slots.toList 0
  simpa [List.range_eq_range', garbage] using positions

theorem garbage_nodup (h : Heap) :
  h.garbage.Nodup
  := by
  rw [garbage_eq_filter]
  exact List.nodup_range.filter _

theorem mem_garbage_iff :
  i ∈ h.garbage ↔ ∃ object, h.slots[i]? = some (some ⟨object, false⟩)
  := by
  rw [garbage_eq_filter, List.mem_filter, List.mem_range]
  rcases slot : h.slots[i]? with _ | _ | ⟨o, marked⟩
  · simp
  · simp [isUnmarked]
  · have inBounds := (Array.getElem?_eq_some_iff.1 slot).1
    simp [isUnmarked, inBounds]

theorem slots_sweep (h : Heap) (i : Nat) :
  h.sweep.2.slots[i]? = (h.slots[i]?).map sweepSlot
  := by
  simp [sweep]

/-- A sweep keeps the marked objects. -/
theorem objectAt_sweep_eq_some_iff :
  h.sweep.2.objectAt i = some object ↔ h.slots[i]? = some (some ⟨object, true⟩)
  := by
  rw [objectAt_eq_some_iff, slots_sweep]
  rcases h.slots[i]? with _ | _ | ⟨o, marked⟩
  · simp
  · simp [sweepSlot]
  · cases marked with
    | false | true => simp [sweepSlot]

/-- A sweep takes all marks away. -/
theorem not_markedAt_sweep (h : Heap) (i : Nat) :
  ¬h.sweep.2.MarkedAt i
  := by
  rintro ⟨object, marked⟩
  rw [slots_sweep] at marked
  rcases slot : h.slots[i]? with _ | _ | ⟨o, isMarked⟩
  · simp [slot] at marked
  · simp [slot, sweepSlot] at marked
  · cases isMarked with
    | false | true => simp [slot, sweepSlot] at marked

/-- The objects that a sweep frees are those that it does not keep. -/
theorem garbage_length_add_occupiedCount_sweep (h : Heap) :
  h.garbage.length + h.sweep.2.occupiedCount = h.occupiedCount
  := by
  have freed : h.garbage.length = h.slots.countP isUnmarked := by
    have positions : h.garbage.length = h.slots.toList.zipIdx.countP (isUnmarked ·.1) := by
      rw [garbage, List.length_filterMap_eq_countP]
      apply List.countP_congr
      rintro ⟨slot, i⟩ -
      by_cases unmarked : isUnmarked slot
      · simp [unmarked]
      · simp [unmarked]
    rw [positions, countP_zipIdx, Array.countP_toList]
  have kept : h.sweep.2.occupiedCount = h.slots.countP fun slot => (sweepSlot slot).isSome := by
    rw [occupiedCount, show h.sweep.2.slots = h.slots.map sweepSlot from rfl, Array.countP_map]
    rfl
  rw [freed, kept, occupiedCount]
  rw [← Array.countP_toList, ← Array.countP_toList, ← Array.countP_toList]
  induction h.slots.toList with
  | nil => rfl
  | cons slot rest ih =>
    simp only [List.countP_cons]
    rcases slot with _ | ⟨o, marked⟩
    · simpa [isUnmarked, sweepSlot] using ih
    · cases marked with
      | false =>
          rw [show isUnmarked (some ⟨o, false⟩) = true from rfl,
            show sweepSlot (some ⟨o, false⟩) = none from rfl]
          simp only [Option.isSome_none, Option.isSome_some, ↓reduceIte, Bool.false_eq_true]
          omega
      | true =>
          rw [show isUnmarked (some ⟨o, true⟩) = false from rfl,
            show sweepSlot (some ⟨o, true⟩) = some ⟨o, false⟩ from rfl]
          simp only [Option.isSome_some, ↓reduceIte, Bool.false_eq_true]
          omega

/-! ### Collections -/

/-- A collection keeps an object exactly when it is reached from the roots. -/
theorem WellFormed.objectAt_reclaim_eq_some_iff (wf : WellFormed h) :
  (h.reclaim roots).2.objectAt i = some object
    ↔ h.objectAt i = some object ∧ ∃ a : Handle, a.index = i ∧ Reaches h roots a
  := by
  have same := mark_sameButMarks h roots
  rw [show (h.reclaim roots).2.objectAt i = (h.mark roots).sweep.2.objectAt i from rfl,
    objectAt_sweep_eq_some_iff, ← same.objectAt, ← markedAt_mark_iff wf.unmarked]
  constructor
  · intro slot
    exact ⟨objectAt_eq_some_iff.2 ⟨true, slot⟩, object, slot⟩
  · rintro ⟨holds, o, slot⟩
    obtain ⟨marked, slot'⟩ := objectAt_eq_some_iff.1 holds
    rw [slot] at slot'
    cases slot'
    exact slot

theorem reclaim_masks (h : Heap) (roots : List Handle) :
  (h.reclaim roots).2.masks = h.masks
  := (mark_sameButMarks h roots).masks

theorem slots_size_reclaim (h : Heap) (roots : List Handle) :
  (h.reclaim roots).2.slots.size = h.slots.size
  := by
  have same := mark_sameButMarks h roots
  have sizes : (h.mark roots).slots.map (Option.map Occupant.object)
      = h.slots.map (Option.map Occupant.object) := by
    apply Array.ext_getElem?
    intro i
    simpa using same.objects i
  have size := congrArg Array.size sizes
  simpa [reclaim, sweep] using size

/-- The number returned is that of the objects that are gone. -/
theorem reclaim_fst_add_occupiedCount (h : Heap) (roots : List Handle) :
  (h.reclaim roots).1 + (h.reclaim roots).2.occupiedCount = h.occupiedCount
  := by
  rw [← (mark_sameButMarks h roots).occupiedCount]
  exact garbage_length_add_occupiedCount_sweep (h.mark roots)

theorem WellFormed.reclaim (wf : WellFormed h) (roots : List Handle) :
  WellFormed (h.reclaim roots).2
  := by
  have same := mark_sameButMarks h roots
  have free : (h.reclaim roots).2.free = (h.mark roots).garbage.reverse ++ h.free := by
    simp only [Heap.reclaim, sweep]
    rw [same.rest]
  have isFree (i : Nat) : i ∈ h.free ↔ (h.mark roots).slots[i]? = some none := by
    rw [wf.mem_free, same.slots_eq_none]
  constructor
  · rw [free]
    apply List.nodup_append.2
    refine ⟨List.nodup_reverse.2 (garbage_nodup _), wf.free_nodup, ?_⟩
    rintro i dead _ listed rfl
    obtain ⟨object, slot⟩ := mem_garbage_iff.1 (List.mem_reverse.1 dead)
    rw [(isFree i).1 listed] at slot
    simp at slot
  · intro i
    rw [free, List.mem_append, List.mem_reverse, mem_garbage_iff, isFree,
      show (h.reclaim roots).2.slots[i]? = (h.mark roots).sweep.2.slots[i]? from rfl, slots_sweep]
    rcases (h.mark roots).slots[i]? with _ | _ | ⟨o, marked⟩
    · simp
    · simp [sweepSlot]
    · cases marked with
      | false | true => simp [sweepSlot]
  · have counted := reclaim_fst_add_occupiedCount h roots
    have live : (h.reclaim roots).2.live = h.live - (h.reclaim roots).1 := by
      simp only [Heap.reclaim, sweep]
      rw [same.rest]
    rw [live, wf.live_eq]
    omega
  · exact not_markedAt_sweep _

/-- A collection reclaims what is not reached and then raises the threshold. -/
theorem collect_eq (h : Heap) (roots : List Handle) :
  collect roots h
    = if h.threshold + h.increment < 2 ^ 64 then
        .ok (h.reclaim roots).1
          { (h.reclaim roots).2 with threshold := h.threshold + h.increment }
      else .error .crash (h.reclaim roots).2
  := by
  have threshold : (h.reclaim roots).2.threshold = h.threshold := by
    simp only [Heap.reclaim, sweep]
    rw [(mark_sameButMarks h roots).rest]
  have increment : (h.reclaim roots).2.increment = h.increment := by
    simp only [Heap.reclaim, sweep]
    rw [(mark_sameButMarks h roots).rest]
  have word : (1 <<< 64 : Nat) = 2 ^ 64 := rfl
  simp only [collect, threshold, increment, word]

/-- Every heap that operations lead to is well-formed. -/
theorem Reachable.wellFormed (reachable : Reachable h) :
  WellFormed h
  := by
  induction reachable with
  | new threshold increment masks => exact .new threshold increment masks
  | alloc object _ wf => exact wf.alloc object
  | update handle f _ wf => exact wf.update handle f
  | @collect h h' roots count _ collected wf =>
    rw [collect_eq] at collected
    split at collected
    · cases collected
      have wf' := wf.reclaim roots
      exact ⟨wf'.free_nodup, wf'.mem_free, wf'.live_eq, wf'.unmarked⟩
    · cases collected

end Heap

end Bytecode
