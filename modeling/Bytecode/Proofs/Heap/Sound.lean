import Mathlib
import Bytecode.Machine.Basic
import Bytecode.Proofs.Heap.Collector

/-!
# Heaps without dangling handles

In a `Sound` heap every object refers only to objects of the heap, and an instance does so only
in fields that the collector follows. Allocations, changes of objects that put in live values and
collections keep a heap sound. All of this depends on the slots being so few that every one has a
handle of its own.
-/

namespace Bytecode

/-- The value refers to an object of the heap, if it refers to one. -/
def Value.Live (h : Heap) (v : Value) : Prop :=
  ∀ handle, v.handle? = some handle → (h.get? handle).isSome

theorem Value.live_of_plain {h : Heap} {v : Value} (plain : v.handle? = none) :
  v.Live h
  := by
  intro handle refers
  rw [plain] at refers
  cases refers

namespace Heap

/-- Every slot has a handle of its own. -/
def Small (h : Heap) : Prop := h.slots.size ≤ 2 ^ 32

end Heap

/-- The object refers only to objects of the heap. An instance has the fields that the collector
knows of, and refers to objects only in those that the collector follows. -/
def Object.Intact (h : Heap) : Object → Prop
  | .refs items => ∀ (i : Nat) handle, items[i]? = some (some handle) → (h.get? handle).isSome
  | .inst class_ fields => ∃ mask, h.masks[class_.toNat]? = some mask ∧ fields.size = mask.length
      ∧ ∀ (i : Nat) v, fields[i]? = some v → v.Live h ∧ (v.handle? ≠ none → mask[i]? = some true)
  | _ => True

theorem Object.refers_of_element {masks : Array (List Bool)} {items : Array (Option Handle)}
    {i : Nat} {item : Option Handle} {handle : Handle} (element : items[i]? = some item)
    (named : (Value.ofHandle? item).handle? = some handle) :
  Heap.Refers masks (.refs items) handle
  := by
  cases item with
  | none => cases named
  | some _ =>
    cases named
    exact .element element

/-- The collector follows every reference in an instance. -/
theorem Object.Intact.refers_of_field {h : Heap} {class_ : UInt16} {fields : Array Value}
    (intact : (Object.inst class_ fields).Intact h) {i : Nat} {v : Value} {handle : Handle}
    (field : fields[i]? = some v) (named : v.handle? = some handle) :
  Heap.Refers h.masks (.inst class_ fields) handle
  := by
  obtain ⟨mask, masked, -, each⟩ := intact
  have followed := (each i v field).2 (by simp [named])
  cases v with
  | ref _ =>
    cases named
    exact .field masked followed field
  | word _ | null => cases named

namespace Heap

/-- No object refers to a slot without one. -/
structure Sound (h : Heap) : Prop where
  wellFormed : h.WellFormed
  intact : h.Small → ∀ i o, h.objectAt i = some o → o.Intact h

/-- The heap has all objects of another one, perhaps changed, and no fewer slots. -/
structure Grows (h h' : Heap) : Prop where
  kept : ∀ handle, (h.get? handle).isSome → (h'.get? handle).isSome
  size_le : h.slots.size ≤ h'.slots.size
  masks : h'.masks = h.masks

namespace Grows

variable {h h' h'' : Heap}

theorem refl (h : Heap) :
  Grows h h
  := ⟨fun _ holds => holds, Nat.le_refl _, rfl⟩

theorem trans (first : Grows h h') (second : Grows h' h'') :
  Grows h h''
  where
  kept handle holds := second.kept handle (first.kept handle holds)
  size_le := Nat.le_trans first.size_le second.size_le
  masks := second.masks.trans first.masks

theorem small (grows : Grows h h') (small : h'.Small) :
  h.Small
  := Nat.le_trans grows.size_le small

theorem live (grows : Grows h h') {v : Value} (live : v.Live h) :
  v.Live h'
  := fun handle refers => grows.kept handle (live handle refers)

theorem intact (grows : Grows h h') {o : Object} (intact : o.Intact h) :
  o.Intact h'
  := by
  cases o with
  | refs items => exact fun i handle found => grows.kept handle (intact i handle found)
  | inst class_ fields =>
    obtain ⟨mask, masked, size, each⟩ := intact
    refine ⟨mask, grows.masks ▸ masked, size, ?_⟩
    intro i v found
    exact ⟨grows.live (each i v found).1, (each i v found).2⟩
  | _ => trivial

end Grows

/-! ### Allocation -/

variable {h : Heap} {o : Object}

theorem WellFormed.grows_alloc (wf : WellFormed h) (o : Object) :
  Grows h (h.alloc o).2
  where
  kept handle holds := by
    obtain ⟨found, there⟩ := Option.isSome_iff_exists.1 holds
    rw [get?_eq_objectAt, wf.objectAt_alloc_of_some o there]
    rfl
  size_le := by
    rw [slots_size_alloc]
    split
    · exact Nat.le_succ _
    · exact Nat.le_refl _
  masks := h.alloc_masks o

theorem Sound.alloc (sound : Sound h) (intact : h.Small → o.Intact h) :
  Sound (h.alloc o).2
  where
  wellFormed := sound.wellFormed.alloc o
  intact small i o' found := by
    have grows := sound.wellFormed.grows_alloc o
    apply grows.intact
    rw [sound.wellFormed.objectAt_alloc] at found
    split at found
    · cases found
      exact intact (grows.small small)
    · exact sound.intact (grows.small small) i o' found

/-- A new object is there. -/
theorem Sound.live_alloc (sound : Sound h) (small : (h.alloc o).2.Small) :
  (Value.ref (h.alloc o).1).Live (h.alloc o).2
  := by
  rintro handle refers
  cases refers
  rw [sound.wellFormed.get?_alloc_fst o small]
  rfl

/-! ### Changes of objects -/

theorem grows_update (h : Heap) (handle : Handle) (f : Object → Object) :
  Grows h (h.update handle f)
  where
  kept handle' holds := by
    rw [get?_eq_objectAt, isSome_objectAt_update]
    exact holds
  size_le := by simp [update]
  masks := rfl

theorem Sound.update (sound : Sound h) {handle : Handle} {f : Object → Object}
    (keeps : h.Small → ∀ o, h.get? handle = some o → o.Intact h → (f o).Intact h) :
  Sound (h.update handle f)
  where
  wellFormed := sound.wellFormed.update handle f
  intact small i o found := by
    have grows := grows_update h handle f
    have small' := grows.small small
    apply grows.intact
    rw [objectAt_update] at found
    split at found
    · next same =>
        obtain ⟨o', there, rfl⟩ := Option.map_eq_some_iff.1 found
        subst same
        exact keeps small' o' there (sound.intact small' _ o' there)
    · exact sound.intact small' i o found

/-! ### Collection -/

theorem small_reclaim (h : Heap) (roots : List Handle) :
  (h.reclaim roots).2.Small ↔ h.Small
  := by
  unfold Small
  rw [slots_size_reclaim]

/-- What is reached from the roots survives a collection. -/
theorem WellFormed.get?_reclaim (wf : WellFormed h) {roots : List Handle} {a : Handle}
    (reached : Reaches h roots a) :
  (h.reclaim roots).2.get? a = h.get? a
  := by
  cases found : h.get? a with
  | none =>
    cases reached with
    | root _ holds | step _ _ _ holds => simp [found] at holds
  | some o =>
    rw [get?_eq_objectAt]
    exact wf.objectAt_reclaim_eq_some_iff.2 ⟨found, a, rfl, reached⟩

/-- A live root survives a collection. -/
theorem WellFormed.get?_reclaim_root (wf : WellFormed h) {roots : List Handle} {a : Handle}
    (isRoot : a ∈ roots) (holds : (h.get? a).isSome) :
  (h.reclaim roots).2.get? a = h.get? a
  := wf.get?_reclaim (.root isRoot holds)

theorem Sound.reclaim (sound : Sound h) (roots : List Handle) :
  Sound (h.reclaim roots).2
  where
  wellFormed := sound.wellFormed.reclaim roots
  intact small i o found := by
    have wf := sound.wellFormed
    have small' := (h.small_reclaim roots).1 small
    obtain ⟨there, a, rfl, reached⟩ := wf.objectAt_reclaim_eq_some_iff.1 found
    have intact := sound.intact small' _ o there
    have survives {b : Handle} (refers : Refers h.masks o b) (holds : (h.get? b).isSome) :
        ((h.reclaim roots).2.get? b).isSome := by
      rw [wf.get?_reclaim (.step reached there refers holds)]
      exact holds
    cases o with
    | refs items =>
      intro i b element
      exact survives (.element element) (intact i b element)
    | inst class_ fields =>
      have whole := intact
      obtain ⟨mask, masked, size, each⟩ := intact
      refine ⟨mask, by rw [reclaim_masks]; exact masked, size, ?_⟩
      intro i v field
      obtain ⟨live, followed⟩ := each i v field
      refine ⟨?_, followed⟩
      intro b named
      exact survives (whole.refers_of_field field named) (live b named)
    | _ => trivial

/-! ### New heaps and default values -/

theorem Sound.new (threshold increment : Nat) (masks : Array (List Bool)) :
  Sound (new threshold increment masks)
  where
  wellFormed := .new threshold increment masks
  intact _ i o found := by simp [objectAt, Heap.new] at found

/-- What a slot of a type starts with. -/
structure Defaulted (ty : Ty) (h : Heap) (v : Value) (h' : Heap) : Prop where
  sound : Sound h'
  grows : Grows h h'
  live : h'.Small → v.Live h'
  /-- Only slots of reference types start with references. -/
  plain : ty.isReference = false → v.handle? = none

theorem Sound.defaultValue (sound : Sound h) (ty : Ty) :
  Defaulted ty h (h.defaultValue ty).1 (h.defaultValue ty).2
  := by
  have plain {v : Value} (none : v.handle? = Option.none) : Defaulted ty h v h :=
    ⟨sound, .refl h, fun _ _ refers => by simp [none] at refers, fun _ => none⟩
  cases ty with
  | string =>
    exact ⟨sound.alloc fun _ => trivial, sound.wellFormed.grows_alloc _, sound.live_alloc, nofun⟩
  | _ => exact plain rfl

theorem Sound.defaultValues (sound : Sound h) (tys : List Ty) :
  Sound (h.defaultValues tys).2 ∧ Grows h (h.defaultValues tys).2
    ∧ (h.defaultValues tys).1.length = tys.length
    ∧ ∀ (i : Nat) v ty, (h.defaultValues tys).1[i]? = some v → tys[i]? = some ty →
      ((h.defaultValues tys).2.Small → v.Live (h.defaultValues tys).2)
        ∧ (ty.isReference = false → v.handle? = none)
  := by
  induction tys generalizing h with
  | nil => exact ⟨sound, .refl h, rfl, by simp [Heap.defaultValues]⟩
  | cons ty rest ih =>
    obtain ⟨sound₁, grows₁, live₁, plain₁⟩ := sound.defaultValue ty
    obtain ⟨sound₂, grows₂, length, each⟩ := ih sound₁
    refine ⟨sound₂, grows₁.trans grows₂, by simp [Heap.defaultValues, length], ?_⟩
    intro i v ty' value typed
    cases i with
    | zero =>
      cases value
      cases typed
      exact ⟨fun small => grows₂.live (live₁ (grows₂.small small)), plain₁⟩
    | succ i => exact each i v ty' value typed

end Heap

end Bytecode
