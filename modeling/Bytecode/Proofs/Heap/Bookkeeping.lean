import Mathlib
import Bytecode.Proofs.Action
import Bytecode.Proofs.Heap.Collector

/-!
# The books of a heap

A heap keeps a list of its free slots, a flag with every object and five counts. `Heap.Operates` is
one operation on a heap: an allocation, a change of an object or a collection. `Heap.Accounts` says
what the books of a heap show that has come from a new one by operations: they agree with each other
and with the slots.
-/

namespace Bytecode

namespace Heap

variable {h h' : Heap} {t i : Nat}

/-- One operation on a heap, in whichever way it ends. -/
inductive Operates : Heap → Heap → Prop
  | alloc (h : Heap) (object : Object) : Operates h (h.alloc object).2
  | update (h : Heap) (handle : Handle) (f : Object → Object) : Operates h (h.update handle f)
  | collect (h : Heap) (roots : List Handle) : Operates h (stateOf (collect roots h))

/-- What the books of a heap show that was new with the threshold `t` and the increment `i`. The
threshold has 64 bits, so a heap can be collected only so many times. -/
structure Accounts (t i : Nat) (h : Heap) : Prop where
  wellFormed : h.WellFormed
  balance : h.live + h.stats.freed = h.stats.allocated
  increment_eq : h.increment = i
  threshold_eq : t + i * h.stats.cycles < 2 ^ 64 → h.threshold = t + i * h.stats.cycles

theorem Accounts.new (t i : Nat) (masks : Array (List Bool)) :
  (new t i masks).Accounts t i
  := ⟨.new t i masks, rfl, rfl, fun _ => rfl⟩

/-! ### Operations -/

theorem Accounts.alloc (accounts : h.Accounts t i) (object : Object) :
  (h.alloc object).2.Accounts t i
  := by
  obtain ⟨wf, balance, increment, threshold⟩ := accounts
  have counted : (h.alloc object).2.live = h.live + 1
      ∧ (h.alloc object).2.stats.allocated = h.stats.allocated + 1
      ∧ (h.alloc object).2.stats.freed = h.stats.freed := by
    unfold Heap.alloc
    rcases h.free with _ | ⟨index, rest⟩
    all_goals exact ⟨rfl, rfl, rfl⟩
  have limits : (h.alloc object).2.increment = h.increment
      ∧ (h.alloc object).2.threshold = h.threshold
      ∧ (h.alloc object).2.stats.cycles = h.stats.cycles := by
    unfold Heap.alloc
    rcases h.free with _ | ⟨index, rest⟩
    all_goals exact ⟨rfl, rfl, rfl⟩
  refine ⟨wf.alloc object, by omega, limits.1.trans increment, ?_⟩
  rw [limits.2.1, limits.2.2]
  exact threshold

theorem Accounts.update (accounts : h.Accounts t i) (handle : Handle) (f : Object → Object) :
  (h.update handle f).Accounts t i
  := ⟨accounts.wellFormed.update handle f, accounts.balance, accounts.increment_eq,
    accounts.threshold_eq⟩

/-- What reclaiming objects does to the counts. -/
theorem stats_reclaim (h : Heap) (roots : List Handle) :
  (h.reclaim roots).2.stats.cycles = h.stats.cycles + 1
    ∧ (h.reclaim roots).2.stats.allocated = h.stats.allocated
    ∧ (h.reclaim roots).2.stats.freed = h.stats.freed + (h.reclaim roots).1
    ∧ (h.reclaim roots).2.threshold = h.threshold
    ∧ (h.reclaim roots).2.increment = h.increment
  := by
  have same := (mark_sameButMarks h roots).rest
  simp only [stats, reclaim, sweep]
  rw [same]
  exact ⟨rfl, rfl, rfl, rfl, rfl⟩

/-- Every collection is counted, also one that ends in a crash. -/
theorem cycles_collect (h : Heap) (roots : List Handle) :
  (stateOf (collect roots h)).stats.cycles = h.stats.cycles + 1
  := by
  rw [collect_eq, ← (stats_reclaim h roots).1]
  split
  · rfl
  · rfl

/-- What reclaiming objects frees is no longer counted as live. -/
theorem WellFormed.live_reclaim (wf : h.WellFormed) (roots : List Handle) :
  (h.reclaim roots).1 + (h.reclaim roots).2.live = h.live
  := by
  rw [wf.live_eq, (wf.reclaim roots).live_eq]
  exact reclaim_fst_add_occupiedCount h roots

theorem WellFormed.collect (wf : h.WellFormed) (roots : List Handle) :
  (stateOf (collect roots h)).WellFormed
  := by
  have wf' := wf.reclaim roots
  rw [collect_eq]
  split
  · exact ⟨wf'.free_nodup, wf'.mem_free, wf'.live_eq, wf'.unmarked⟩
  · exact wf'

/-- A collection that ends in a crash has counted a cycle for which the threshold has no room. -/
theorem Accounts.collect (accounts : h.Accounts t i) (roots : List Handle) :
  (stateOf (collect roots h)).Accounts t i
  := by
  have wf' := accounts.wellFormed.collect roots
  have live := accounts.wellFormed.live_reclaim roots
  obtain ⟨-, balance, increment, threshold⟩ := accounts
  obtain ⟨cycles, allocated, freed, -, sameIncrement⟩ := stats_reclaim h roots
  have balance' : (h.reclaim roots).2.live + (h.reclaim roots).2.stats.freed
      = (h.reclaim roots).2.stats.allocated := by omega
  have raised : t + i * (h.reclaim roots).2.stats.cycles < 2 ^ 64 →
      h.threshold + h.increment = t + i * (h.reclaim roots).2.stats.cycles := by
    intro within
    rw [cycles, Nat.mul_add_one] at within ⊢
    rw [threshold (by omega), increment]
    omega
  rw [collect_eq] at wf' ⊢
  split
  · next fits =>
      rw [if_pos fits] at wf'
      exact ⟨wf', balance', sameIncrement.trans increment, raised⟩
  · next large =>
      rw [if_neg large] at wf'
      refine ⟨wf', balance', sameIncrement.trans increment, fun within => ?_⟩
      exact absurd (raised within ▸ within) large

theorem Operates.accounts (operates : Operates h h') (accounts : h.Accounts t i) :
  h'.Accounts t i
  := by
  cases operates with
  | alloc object => exact accounts.alloc object
  | update handle f => exact accounts.update handle f
  | collect roots => exact accounts.collect roots

/-- Whatever operations are performed, the books stay in order. -/
theorem Accounts.of_operations (operations : Relation.ReflTransGen Operates h h')
    (accounts : h.Accounts t i) :
  h'.Accounts t i
  := by
  induction operations with
  | refl => exact accounts
  | tail _ operates ih => exact operates.accounts ih

/-- A collection succeeds if there is room for the next threshold. -/
theorem Accounts.exists_collect (accounts : h.Accounts t i)
    (within : t + i * (h.stats.cycles + 1) < 2 ^ 64) (roots : List Handle) :
  ∃ count h', Heap.collect roots h = .ok count h'
  := by
  rw [Nat.mul_add_one] at within
  have threshold := accounts.threshold_eq (by omega)
  rw [collect_eq, if_pos (by rw [threshold, accounts.increment_eq]; omega)]
  exact ⟨_, _, rfl⟩

/-- Only an allocation adds a slot, and only if no slot is free. -/
theorem Operates.free_eq_nil (operates : Operates h h') (grown : h.slots.size < h'.slots.size) :
  h.free = []
  := by
  cases operates with
  | alloc object =>
    rw [slots_size_alloc] at grown
    by_contra free
    rw [if_neg free] at grown
    exact Nat.lt_irrefl _ grown
  | update handle f =>
    rw [Heap.update, Array.size_modify] at grown
    exact absurd grown (Nat.lt_irrefl _)
  | collect roots =>
    have size := slots_size_reclaim h roots
    rw [collect_eq] at grown
    split at grown
    · change h.slots.size < (h.reclaim roots).2.slots.size at grown
      omega
    · rw [stateOf_error] at grown
      omega

/-! ### Allocation -/

/-- The object has been put where there was none, and no other object has changed. -/
structure Places (object : Object) (handle : Handle) (h h' : Heap) : Prop where
  fresh : h.contains handle = false
  live : h'.get? handle = some object
  others : ∀ j, j ≠ handle.index → h'.objectAt j = h.objectAt j

theorem WellFormed.places_alloc (wf : h.WellFormed) (object : Object)
    (small : (h.alloc object).2.slots.size ≤ 2 ^ 32) :
  h.Places object (h.alloc object).1 (h.alloc object).2
  := by
  have inside := wf.nextIndex_lt_size_alloc object
  have index : (h.alloc object).1.index = h.nextIndex := by
    rw [alloc_fst]
    exact Handle.index_ofIndex (by omega)
  refine ⟨?_, wf.get?_alloc_fst object small, ?_⟩
  · rw [contains, get?_eq_objectAt, index, wf.objectAt_nextIndex]
    rfl
  · intro j other
    rw [wf.objectAt_alloc, if_neg (index ▸ other)]

/-- The books of a heap that operations have made of a new one: exactly the empty slots are free,
each of them once; the number of live objects is that of the occupied slots, and that of the objects
allocated and not freed; every collection has raised the threshold by the increment, which succeeds
as long as there is room for it; no object is marked. An allocation makes one object live under a
handle that was not, leaves the others, and adds a slot only if none is free. -/
theorem accounts_of_operations {t i : Nat} {masks : Array (List Bool)} {h : Heap}
    (operations : Relation.ReflTransGen Operates (new t i masks) h)
    (within : t + i * h.stats.cycles < 2 ^ 64) :
  h.free.Nodup
    ∧ (∀ j, j ∈ h.free ↔ h.slots[j]? = some none)
    ∧ h.live = h.occupiedCount
    ∧ h.live = h.stats.allocated - h.stats.freed ∧ h.stats.freed ≤ h.stats.allocated
    ∧ h.threshold = t + i * h.stats.cycles
    ∧ (∀ j, ¬h.MarkedAt j)
    ∧ (∀ object, (h.alloc object).2.slots.size ≤ 2 ^ 32 →
        h.Places object (h.alloc object).1 (h.alloc object).2)
    ∧ (∀ h', Operates h h' → h.slots.size < h'.slots.size → h.free = [])
    ∧ (t + i * (h.stats.cycles + 1) < 2 ^ 64 →
        ∀ roots, ∃ count h', collect roots h = .ok count h')
  := by
  have accounts := Accounts.of_operations operations (.new t i masks)
  have wf := accounts.wellFormed
  have balance := accounts.balance
  exact ⟨wf.free_nodup, wf.mem_free, wf.live_eq, by omega, by omega, accounts.threshold_eq within,
    wf.unmarked, fun object small => wf.places_alloc object small, fun _ operates =>
    operates.free_eq_nil, accounts.exists_collect⟩

/-- A heap with two strings of which the first has been freed. -/
def oneFreed : Heap :=
  stateOf (collect [.ofIndex 1] (((new 4 8 #[]).alloc (.string "a")).2.alloc (.string "b")).2)

theorem accounts_oneFreed :
  oneFreed.free = [0]
    ∧ oneFreed.live = oneFreed.stats.allocated - oneFreed.stats.freed
    ∧ oneFreed.threshold = 4 + 8 * oneFreed.stats.cycles
    ∧ oneFreed.Places (.string "c") (oneFreed.alloc (.string "c")).1 (oneFreed.alloc (.string "c")).2
  := by
  have operations : Relation.ReflTransGen Operates (new 4 8 #[]) oneFreed :=
    ((Relation.ReflTransGen.single (.alloc _ _)).tail (.alloc _ _)).tail (.collect _ _)
  have size : (oneFreed.alloc (.string "c")).2.slots.size = 2 := by cbv
  have cycles : oneFreed.stats.cycles = 1 := by cbv
  obtain ⟨-, -, -, live, -, threshold, -, places, -⟩ :=
    accounts_of_operations operations (by rw [cycles]; decide)
  exact ⟨by cbv, live, threshold, places _ (by omega)⟩

end Heap

end Bytecode
