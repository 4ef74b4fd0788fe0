import Mathlib
import Bytecode.Proofs.Heap.Bookkeeping
import Bytecode.Proofs.Machine.Dangling

/-!
# The size of a heap

A machine collects its garbage before an instruction if it has more objects than the threshold
allows. Since a collection leaves the objects that are reached and no others, the heap of a machine
that fetches an instruction is never larger than its threshold or than what the program can reach.

Whatever happens to a machine, its heap goes through operations of `Heap.Operates`, so its books are
those of `Heap.Accounts`. This is so with every native function that uses the heap by its operations.
-/

namespace Bytecode

open Relation (ReflTransGen)

/-! ### Counting objects -/

private theorem countP_eq_card_filter {α : Type} (p : α → Bool) (items : List α) :
  items.countP p = ((Finset.range items.length).filter fun i => (items[i]?).any p).card
  := by
  induction items using List.reverseRecOn with
  | nil => rfl
  | append_singleton items item ih =>
    have before : (Finset.range items.length).filter (fun i => ((items ++ [item])[i]?).any p)
        = (Finset.range items.length).filter fun i => (items[i]?).any p := by
      apply Finset.filter_congr
      intro i inRange
      rw [List.getElem?_append_left (Finset.mem_range.1 inRange)]
    rw [List.countP_append, List.countP_singleton, List.length_append, List.length_singleton,
      Finset.range_add_one, Finset.filter_insert, before, ih, List.getElem?_concat_length]
    by_cases selected : p item
    · simp [selected]
    · simp [selected]

namespace Heap

variable {h h' : Heap} {roots : List Handle} {a : Handle}

theorem occupiedCount_eq_ncard (h : Heap) :
  h.occupiedCount = {i | (h.objectAt i).isSome}.ncard
  := by
  have occupied : {i | (h.objectAt i).isSome}
      = (Finset.range h.slots.toList.length).filter fun i => (h.slots.toList[i]?).any Option.isSome := by
    ext i
    have inside : (h.objectAt i).isSome → i < h.slots.size := lt_size_of_objectAt
    rw [Finset.coe_filter, Set.mem_ofPred_eq, Set.mem_ofPred_eq, Finset.mem_range, Array.length_toList,
      Array.getElem?_toList]
    rcases slot : h.slots[i]? with _ | _ | occupant
    · simp [objectAt, slot]
    · simp [objectAt, slot]
    · simpa [objectAt, slot] using inside
  rw [occupied, Set.ncard_coe_finset, occupiedCount, ← Array.countP_toList, countP_eq_card_filter]

/-- The number of objects that are reached from the roots. -/
noncomputable def reachedCount (roots : List Handle) (h : Heap) : Nat :=
  {a | h.Reaches roots a}.ncard

theorem Reaches.isSome (reaches : h.Reaches roots a) :
  (h.get? a).isSome
  := by
  cases reaches with
  | root _ holds | step _ _ _ holds => exact holds

/-- What is reached in one heap is reached in another one that has these objects. -/
theorem Reaches.of_get? (reaches : h.Reaches roots a) (masks : h'.masks = h.masks)
    (same : ∀ b, h.Reaches roots b → h'.get? b = h.get? b) :
  h'.Reaches roots a
  := by
  induction reaches with
  | root isRoot holds => exact .root isRoot (by rwa [same _ (.root isRoot holds)])
  | @step a b object reached found refers holds ih =>
    refine .step ih (by rwa [same a reached]) (by rwa [masks]) ?_
    rwa [same b (.step reached found refers holds)]

/-- A collection leaves the objects that are reached, and these are still reached. -/
theorem WellFormed.isSome_objectAt_reclaim_iff (wf : h.WellFormed) {i : Nat} :
  ((h.reclaim roots).2.objectAt i).isSome
    ↔ ∃ a : Handle, (h.reclaim roots).2.Reaches roots a ∧ a.index = i
  := by
  constructor
  · intro holds
    obtain ⟨object, found⟩ := Option.isSome_iff_exists.1 holds
    obtain ⟨-, a, index, reaches⟩ := wf.objectAt_reclaim_eq_some_iff.1 found
    exact ⟨a, reaches.of_get? (reclaim_masks h roots) fun _ => wf.get?_reclaim, index⟩
  · rintro ⟨a, reaches, rfl⟩
    exact reaches.isSome

theorem WellFormed.live_reclaim_eq_reachedCount (wf : h.WellFormed) (roots : List Handle) :
  (h.reclaim roots).2.live = (h.reclaim roots).2.reachedCount roots
  := by
  have left : {i | ((h.reclaim roots).2.objectAt i).isSome}
      = Handle.index '' {a | (h.reclaim roots).2.Reaches roots a} := by
    ext i
    exact wf.isSome_objectAt_reclaim_iff
  rw [(wf.reclaim roots).live_eq, occupiedCount_eq_ncard, left, reachedCount]
  exact Set.ncard_image_of_injective _ fun _ _ => Handle.eq_of_index_eq

/-- What is reached does not depend on the threshold. -/
theorem reachedCount_withThreshold (h : Heap) (threshold : Nat) (roots : List Handle) :
  ({ h with threshold } : Heap).reachedCount roots = h.reachedCount roots
  := by
  unfold reachedCount
  congr 1
  ext a
  constructor
  · exact fun reaches => reaches.of_get? rfl fun _ _ => rfl
  · exact fun reaches => reaches.of_get? rfl fun _ _ => rfl

/-- After a collection as many objects are left as are reached. -/
theorem WellFormed.live_collect (wf : h.WellFormed) {count : Nat}
    (collected : Heap.collect roots h = .ok count h') :
  h'.live = h'.reachedCount roots
  := by
  rw [collect_eq] at collected
  split at collected
  · cases collected
    rw [reachedCount_withThreshold]
    exact wf.live_reclaim_eq_reachedCount roots
  · cases collected

/-- What programs do to a heap consists of operations. -/
theorem Derived.operations {exe : Executable} (derived : Derived exe h h') :
  ReflTransGen Operates h h'
  := by
  induction derived with
  | refl => exact .refl
  | alloc _ _ ih => exact ih.tail (.alloc _ _)
  | setElement handle i v _ ih | setField handle i v _ ih => exact ih.tail (.update _ _ _)

end Heap

/-! ### The heap of a machine -/

/-- All that the procedure does to the heap is operations. -/
def Native.UsesHeap (n : Native) : Prop :=
  ∀ args host, ReflTransGen Heap.Operates host.heap (stateOf (n.run args host)).heap

/-- So it is with one that leaves the heap alone, as the built-in ones do. -/
theorem Native.Benign.usesHeap {n : Native} (benign : n.Benign) :
  n.UsesHeap
  := by
  intro args host
  rw [benign.heap]

namespace Machine

variable {m m' : Machine}

/-- The native functions of the machine do to the heap what can be done to it. -/
def Orderly (m : Machine) : Prop :=
  ∀ (index : Nat) native, (m.natives[index]?).join = some native → native.UsesHeap

/-- The heap of the second machine comes from that of the first one by operations. -/
def Operated (m m' : Machine) : Prop :=
  m.Orderly → m'.Orderly ∧ ReflTransGen Heap.Operates m.heap m'.heap

instance : IsPreorder Machine Operated where
  refl _ orderly := ⟨orderly, .refl⟩
  trans _ _ _ first second orderly :=
    ⟨(second (first orderly).1).1, (first orderly).2.trans (second (first orderly).1).2⟩

theorem heap_stateOf_collect (m : Machine) :
  (stateOf (collect m)).heap = stateOf (Heap.collect m.roots m.heap)
  := by
  rw [collect_eq, Heap.collect_eq]
  split
  · rfl
  · rfl

/-- Whatever a machine does, it operates on its heap. -/
theorem Operated.law :
  Law Operated
  := by
  apply Law.of_stackless
  · exact fun _ _ _ orderly => ⟨orderly, .refl⟩
  · intro α x off derives m orderly
    refine ⟨?_, (derives.heap m).operations⟩
    unfold Orderly
    rw [off.natives m]
    exact orderly
  · intro m orderly
    refine ⟨?_, heap_stateOf_collect m ▸ .single (.collect _ _)⟩
    obtain ⟨host, collected⟩ := stateOf_collect m
    rw [collected]
    exact orderly
  · intro m index native args bound orderly
    rw [stateOf_onHost]
    exact ⟨orderly, orderly index native bound args m.host⟩

theorem Operated.link (m : Machine) {registry : Registry}
    (uses : ∀ native ∈ registry.natives, native.UsesHeap) :
  Operated m (link registry m).2
  := fun orderly => ⟨link_bound orderly uses, .refl⟩

/-- What becomes of a machine by a host that links native functions, runs code, collects garbage and
makes strings. -/
inductive Hosted (start : Machine) : Machine → Prop
  | refl : Hosted start start
  | served {m m' : Machine} :
      Hosted start m → Served (fun registry => ∀ native ∈ registry.natives, native.UsesHeap) m m' →
      Hosted start m'
  | newString {m : Machine} (text : String) :
      Hosted start m → Hosted start (stateOf (newString text m))

theorem Hosted.operated {start : Machine} (hosted : Hosted start m) :
  Operated start m
  := by
  induction hosted with
  | refl => exact refl_of Operated _
  | served _ served ih =>
    exact trans_of Operated ih (served.follows Operated.law fun _ _ uses => .link _ uses)
  | @newString m text _ ih =>
    exact trans_of Operated ih (Operated.law.offStack (offStack_newString text)
      (ordinary_newString text).derives m)

/-- The books of a machine that has been made with a configuration. -/
def Accounts (config : Config) (m : Machine) : Prop :=
  m.heap.Accounts config.gcThreshold config.gcThresholdIncrement

theorem accounts_of_new? {exe : Executable} {config : Config} {clock : Int64}
    (made : new? exe config clock = some m) :
  m.Orderly ∧ m.Accounts config
  := by
  obtain ⟨stack, -, rfl⟩ := Option.map_eq_some_iff.1 made
  constructor
  · intro index native bound
    rw [natives_ofStack] at bound
    cases bound
  · have derived : Heap.Derived exe (.new config.gcThreshold config.gcThresholdIncrement
        (exe.classes.map Class.referenceFields)) (ofStack exe config clock stack).heap :=
      .defaultValues .refl (exe.globals.toList.map (·.ty))
    exact .of_operations derived.operations (.new _ _ _)

/-- The books of a machine are in order at every instruction boundary of its runs. -/
theorem accounts_of_reaches {exe : Executable} {config : Config} {clock : Int64}
    {start m₀ m₁ : Machine} {entry : Nat} (made : new? exe config clock = some start)
    (hosted : Hosted start m₀) (enters : m₀.Enters entry m₁)
    (reaches : Reaches (fun _ => True) m₁ m) :
  m.Accounts config
  := by
  obtain ⟨orderly, accounts⟩ := accounts_of_new? made
  have entered : Operated start m₁ := trans_of Operated hosted.operated (enters.follows Operated.law)
  have operated : Operated start m := trans_of Operated entered (Operated.law.reaches reaches)
  exact .of_operations (operated orderly).2 accounts

/-! ### Collections before instructions -/

/-- The number of objects that the machine can reach from its globals and its stack. -/
noncomputable def reachedCount (m : Machine) : Nat := m.heap.reachedCount m.roots

theorem collectIfDue_of_le (few : m.heap.live ≤ m.heap.threshold) :
  collectIfDue m = .ok () m
  := by
  rw [collectIfDue_eq, Heap.needsCollection, if_neg (by simpa using few)]

theorem collectIfDue_of_lt (due : m.heap.threshold < m.heap.live) :
  collectIfDue m = (collect >>= fun _ => pure ()) m
  := by
  rw [collectIfDue_eq, Heap.needsCollection, if_pos (by simpa using due)]

theorem heap_collectIfDue_of_lt (due : m.heap.threshold < m.heap.live) :
  (stateOf (collectIfDue m)).heap = stateOf (Heap.collect m.roots m.heap)
  := by
  rw [collectIfDue_of_lt due, ← heap_stateOf_collect, stateOf_bind]
  cases collect m with
  | ok count m₁ => rfl
  | error trap m₁ => rfl

theorem wellFormed_collectIfDue (wf : m.heap.WellFormed) :
  (stateOf (collectIfDue m)).heap.WellFormed
  := by
  by_cases due : m.heap.threshold < m.heap.live
  · rw [heap_collectIfDue_of_lt due]
    exact wf.collect m.roots
  · rw [collectIfDue_of_le (Nat.le_of_not_lt due)]
    exact wf

/-- A collection that is due before an instruction leaves as many objects as are reached. -/
theorem Accounts.exists_collectIfDue {config : Config} (accounts : m.Accounts config)
    (due : m.heap.threshold < m.heap.live)
    (within : config.gcThreshold + config.gcThresholdIncrement
      * (stateOf (collectIfDue m)).heap.stats.cycles < 2 ^ 64) :
  ∃ count m', collect m = .ok count m' ∧ collectIfDue m = .ok () m' ∧ m'.Accounts config
    ∧ m'.heap.stats.cycles = m.heap.stats.cycles + 1 ∧ m'.heap.live = m'.reachedCount
  := by
  have cycles := m.heap.cycles_collect m.roots
  rw [heap_collectIfDue_of_lt due, cycles] at within
  obtain ⟨count, h', collected⟩ := Heap.Accounts.exists_collect accounts within m.roots
  have ran : collect m = .ok count (m.withHeap h') := by
    unfold collect
    rw [onHeap_eq, collected]
  have checked := (collectIfDue_of_lt due).trans (bind_of_ok ran _)
  have accounts' := Heap.Accounts.collect accounts m.roots
  rw [collected] at cycles accounts'
  refine ⟨count, m.withHeap h', ran, checked, accounts', cycles, ?_⟩
  exact (Heap.Accounts.wellFormed accounts).live_collect collected

/-- A machine that fetches an instruction has no more objects than its threshold allows or than it
can reach. The threshold is the first one raised once for every collection, and there is a collection
before the instruction exactly if there were more objects than the threshold allowed. -/
theorem live_le_at_fetch {exe : Executable} {config : Config} {clock : Int64}
    {start m₀ m₁ m : Machine} {entry : Nat} (made : new? exe config clock = some start)
    (hosted : Hosted start m₀) (enters : m₀.Enters entry m₁)
    (reaches : Reaches (fun _ => True) m₁ m)
    (within : config.gcThreshold + config.gcThresholdIncrement
      * (stateOf (collectIfDue m)).heap.stats.cycles < 2 ^ 64) :
  ∃ m', collectIfDue m = .ok () m'
    ∧ m'.heap.live ≤ max m'.heap.threshold m'.reachedCount
    ∧ m'.heap.threshold
        = config.gcThreshold + config.gcThresholdIncrement * m'.heap.stats.cycles
    ∧ (m.heap.threshold < m.heap.live →
        (∃ count, collect m = .ok count m')
          ∧ m'.heap.stats.cycles = m.heap.stats.cycles + 1)
    ∧ (m.heap.live ≤ m.heap.threshold → m' = m)
  := by
  have accounts := accounts_of_reaches made hosted enters reaches
  by_cases due : m.heap.threshold < m.heap.live
  · obtain ⟨count, m', collected, checked, accounts', cycles, live⟩ :=
      accounts.exists_collectIfDue due within
    rw [checked] at within
    refine ⟨m', checked, ?_, ?_, fun _ => ⟨⟨count, collected⟩, cycles⟩, fun few => ?_⟩
    · rw [live]
      exact Nat.le_max_right _ _
    · exact Heap.Accounts.threshold_eq accounts' within
    · exact absurd due (Nat.not_lt.2 few)
  · have few := Nat.le_of_not_lt due
    have checked := collectIfDue_of_le few
    rw [checked] at within
    refine ⟨m, checked, Nat.le_trans few (Nat.le_max_left _ _), ?_, fun more => absurd more due,
      fun _ => rfl⟩
    exact Heap.Accounts.threshold_eq accounts within

/-- The machine that names a string anew has two objects, and a collection before the next
instruction leaves the one that its global refers to. -/
theorem live_le_namingAfter :
  (namingAfter 2).heap.live = 2
    ∧ ∃ m', collectIfDue (namingAfter 2) = .ok () m'
      ∧ m'.heap.live ≤ max m'.heap.threshold m'.reachedCount
      ∧ m'.heap.stats.cycles = (namingAfter 2).heap.stats.cycles + 1
  := by
  have live : (namingAfter 2).heap.live = 2 := by cbv
  have threshold : (namingAfter 2).heap.threshold = 0 := by cbv
  have first : step namingMachine.restart = .ok .running (namingAfter 1) := by cbv
  have second : step (namingAfter 1) = .ok .running (namingAfter 2) := by cbv
  have reaches : Reaches (fun _ => True) namingMachine.restart (namingAfter 2) :=
    .step (.step .refl trivial first) trivial second
  have made : new? namingExecutable namingConfig 0 = some namingMachine := rfl
  have within : namingConfig.gcThreshold + namingConfig.gcThresholdIncrement
      * (stateOf (collectIfDue (namingAfter 2))).heap.stats.cycles < 2 ^ 64 := by
    change 0 + 0 * _ < _
    omega
  obtain ⟨m', checked, bounded, -, collected, -⟩ := live_le_at_fetch made .refl .run reaches within
  exact ⟨live, m', checked, bounded, (collected (by omega)).2⟩

end Machine

end Bytecode
