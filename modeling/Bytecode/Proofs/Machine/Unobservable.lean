import Mathlib
import Bytecode.Proofs.Machine.Dangling
import Bytecode.Proofs.Machine.Lockstep

/-!
# Collections cannot be observed

Machines that are alike run in lockstep, `Alike.resume`, however often each of them collects. Hence
the run of a program does not depend on when collections are due: `run_withGcThreshold` says that it
ends in the same way, with the same output, and with global variables that are the same up to a
one-to-one correspondence between the objects that can be reached from them.
-/

namespace Bytecode

namespace Machine

variable {ρ : Pairing} {m m' : Machine} {p : Program} {exe : Executable}

/-! ### Globals -/

/-- The objects to which global variables refer. -/
def globalHandles (m : Machine) : List Handle := m.globals.toList.filterMap Value.handle?

/-- The pairing is a one-to-one correspondence between the objects that can be reached from the
global variables of the machines, and up to it these variables and objects are the same. -/
structure SameGlobals (ρ : Pairing) (m m' : Machine) : Prop where
  functional : ∀ a b b', ρ a b → ρ a b' → b = b'
  injective : ∀ a a' b, ρ a b → ρ a' b → a = a'
  reached : ∀ a, m.heap.Reaches m.globalHandles a ↔ ∃ b, ρ a b
  reached' : ∀ b, m'.heap.Reaches m'.globalHandles b ↔ ∃ a, ρ a b
  globals : Alongside (Value.Alike ρ) m.globals m'.globals
  objects : ∀ a b, ρ a b →
    ∃ o o', m.heap.get? a = some o ∧ m'.heap.get? b = some o' ∧ o.Alike ρ o'

theorem mem_globalHandles {k : Nat} {v : Value} (found : m.globals[k]? = some v) {a : Handle}
    (refers : v.handle? = some a) :
  a ∈ m.globalHandles
  := List.mem_filterMap.2 ⟨v, (Array.mem_of_getElem? found).val, refers⟩

/-- The references of global variables have partners. -/
theorem exists_globalHandle (globals : Alongside (Value.Alike ρ) m.globals m'.globals) {a : Handle}
    (listed : a ∈ m.globalHandles) :
  ∃ b ∈ m'.globalHandles, ρ a b
  := by
  obtain ⟨v, among, refers⟩ := List.mem_filterMap.1 listed
  obtain ⟨k, found⟩ := List.getElem?_of_mem among
  rw [Array.getElem?_toList] at found
  obtain ⟨w, found', values⟩ := globals.exists_right found
  cases values with
  | word bits | null => cases refers
  | @ref _ b paired =>
    cases refers
    exact ⟨b, mem_globalHandles found' rfl, paired⟩

/-- The globals of alike machines are the same up to what is left of the pairing. -/
theorem Alike.sameGlobals (alike : m.Alike ρ m') (secure : m.Secure) (secure' : m'.Secure)
    (small : m.heap.Small) (small' : m'.heap.Small) :
  ∃ ρ', SameGlobals ρ' m m'
  := by
  have heaps := alike.heap small small'
  have masks : m'.heap.masks = m.heap.masks := by rw [secure'.masks, secure.masks, alike.exe]
  have left := heaps.restrict secure.sound secure'.sound small small' m.globalHandles
    m'.globalHandles
  refine ⟨_, left.functional, left.injective, ?_, ?_, ⟨alike.globals.size_eq, ?_⟩, left.object⟩
  · intro a
    constructor
    · apply heaps.exists_partner masks
      exact fun x listed => exists_globalHandle alike.globals listed
    · rintro ⟨b, -, reaches, -⟩
      exact reaches
  · intro b
    constructor
    · intro reaches'
      have globals := alike.globals.symm (S := Value.Alike ρ.swap) fun _ _ values => values.symm
      have rooted : ∀ y ∈ m'.globalHandles, ∃ x ∈ m.globalHandles, ρ.swap y x :=
        fun y listed => exists_globalHandle globals listed
      obtain ⟨a, paired, -, reaches⟩ := heaps.symm.exists_partner masks.symm rooted reaches'
      exact ⟨a, paired, reaches, reaches'⟩
    · rintro ⟨a, -, -, reaches'⟩
      exact reaches'
  · intro k v w found found'
    apply heaps.reached_of_root (alike.globals.each k v w found found')
    · exact fun a refers => mem_globalHandles found refers
    · exact fun b refers => mem_globalHandles found' refers

/-! ### Runs -/

/-- The step that the machine takes next is as it should be: the call or the store before it fits,
no reference is read as a number, every slot has a handle of its own, and the threshold can be
raised. -/
structure Disciplined (p : Program) (m : Machine) : Prop where
  calls : m.CallFits p
  stores : m.StoreFits
  numbers : m.ReadsNumbers
  small : m.heap.Small
  small_step : (stateOf (step m)).heap.Small
  room : m.CanCollect

/-- Faults are raised at the same place. -/
theorem Alike.locate_eq (alike : m.Alike ρ m') (f : Fault) :
  m'.locate f = m.locate f
  := by
  unfold locate
  rw [alike.exe, alike.registers]

/-- Runs that have come to the same: they have ended in the same way, with machines that are alike
and without dangling handles. -/
structure RanAlike (ended ended' : Ending RuntimeError (Option Value) × Machine) : Prop where
  ending : ended.1.map (fun _ => ()) = ended'.1.map (fun _ => ())
  alike : ∃ ρ, ended.2.Alike ρ ended'.2
  secure : ended.2.Secure
  secure' : ended'.2.Secure
  small : ended.2.heap.Small
  small' : ended'.2.heap.Small

/-- Alike machines run in lockstep. -/
theorem Alike.resume {start start' : Machine} {entry entry' : Nat} (alike : start.Alike ρ start')
    (sheltered : start.Sheltered p entry) (sheltered' : start'.Sheltered p entry')
    (inRange : p.SlotsInRange) (timeless : start.Timeless)
    (disciplined : ∀ m, Reaches (fun _ => True) start m → m.Disciplined p)
    (disciplined' : ∀ m, Reaches (fun _ => True) start' m → m.Disciplined p) (fuel : Nat) :
  RanAlike (Machine.resume fuel start) (Machine.resume fuel start')
  := by
  suffices from_ : ∀ ρ m m', m.Alike ρ m' → m.Sheltered p entry → m'.Sheltered p entry' →
      m.Timeless → Reaches (fun _ => True) start m → Reaches (fun _ => True) start' m' →
      RanAlike (Machine.resume fuel m) (Machine.resume fuel m') from
    from_ ρ start start' alike sheltered sheltered' timeless .refl .refl
  clear alike sheltered sheltered' timeless
  induction fuel with
  | zero =>
    intro ρ m m' alike sheltered sheltered' _ reached reached'
    exact ⟨rfl, ⟨ρ, alike⟩, sheltered.guarded.secure, sheltered'.guarded.secure,
      (disciplined m reached).small, (disciplined' m' reached').small⟩
  | succ fuel ih =>
    intro ρ m m' alike sheltered sheltered' timeless reached reached'
    have rules := disciplined m reached
    have rules' := disciplined' m' reached'
    have small := rules.small_step
    have small' := rules'.small_step
    have kept := sheltered.step inRange rules.calls rules.stores
    have kept' := sheltered'.step inRange rules'.calls rules'.stores
    have program := SameProgram.law.step m
    obtain ⟨ρ', matched⟩ := alike.step sheltered sheltered' inRange timeless rules.calls
      rules.numbers rules.small rules'.small rules.room rules'.room
    unfold Machine.resume
    generalize stepped : Machine.step m = r at matched kept small program
    generalize stepped' : Machine.step m' = r' at matched kept' small'
    cases matched with
    | @ok ρ₁ _ _ m₁ m₁' _ alike₁ next =>
      cases next with
      | running =>
        have timeless₁ : m₁.Timeless := by
          have natives : m₁.natives = m.natives := program.natives
          unfold Timeless
          rw [natives]
          exact timeless
        exact ih ρ₁ m₁ m₁' alike₁ (kept.2 rfl) (kept'.2 rfl) timeless₁
          (.step reached trivial stepped) (.step reached' trivial stepped')
      | finished _ =>
        exact ⟨rfl, ⟨ρ₁, alike₁⟩, kept.1.secure, kept'.1.secure, small, small'⟩
    | @error ρ₁ trap m₁ m₁' _ alike₁ =>
      cases trap with
      | crash => exact ⟨rfl, ⟨ρ₁, alike₁⟩, kept.1.secure, kept'.1.secure, small, small'⟩
      | error f =>
        dsimp only
        rw [alike₁.locate_eq f]
        cases m₁.locate f with
        | none | some e => exact ⟨rfl, ⟨ρ₁, alike₁⟩, kept.1.secure, kept'.1.secure, small, small'⟩

/-! ### New machines -/

theorem Alike.restart (alike : m.Alike ρ m') :
  m.restart.Alike ρ m'.restart
  := (alike.withStack (alike.stack.truncate (Nat.zero_le _))).onRegisters fun registers =>
    { registers with current := none, pc := 0, base := 0 }

theorem Alike.link (alike : m.Alike ρ m') (registry : Registry) :
  (link registry m).2.Alike ρ (link registry m').2
  := by
  refine ⟨alike.exe, ?_, alike.registers, alike.output, alike.stack, alike.globals, alike.heap⟩
  change (linkFrom registry 0 m'.exe.functions.toList m'.natives).2
    = (linkFrom registry 0 m.exe.functions.toList m.natives).2
  rw [alike.exe, alike.natives]

/-- New machines are alike, whenever they are to collect. -/
theorem exists_alike_of_new? {config : Config} {threshold increment : Nat} {clock clock' : Int64}
    (made : new? exe config clock = some m)
    (made' : new? exe (config.withGcThreshold threshold increment) clock' = some m') :
  ∃ ρ, m.Alike ρ m'
  := by
  obtain ⟨stack, fresh, rfl⟩ := Option.map_eq_some_iff.1 made
  obtain ⟨stack', fresh', rfl⟩ := Option.map_eq_some_iff.1 made'
  obtain rfl : stack = stack' := Option.some.inj (fresh.symm.trans fresh')
  let masks := exe.classes.map Class.referenceFields
  have heaps : Heap.AlikeIn (fun _ _ => False)
      (Heap.new config.gcThreshold config.gcThresholdIncrement masks)
      (Heap.new threshold increment masks) := by
    intro _ _
    exact ⟨.new .., .new .., nofun, nofun, nofun⟩
  obtain ⟨ρ, -, heaps, values⟩ := heaps.defaultValues (exe.globals.toList.map (·.ty))
  have empty : stack.sp = 0 := by
    unfold Stack.tryNew at fresh
    split at fresh
    all_goals cases fresh
    rfl
  refine ⟨ρ, rfl, rfl, rfl, rfl, ⟨rfl, rfl, rfl, ?_⟩, .toArray values, heaps⟩
  intro k c c' used
  change k < stack.sp at used
  omega

/-- Linked with such functions, a new machine has only native functions that do not tell the
time. -/
theorem timeless_link {config : Config} {clock : Int64} (made : new? exe config clock = some m)
    {registry : Registry} (timeless : ∀ native ∈ registry.natives, native.Timeless) :
  (link registry m).2.Timeless
  := by
  refine link_bound ?_ timeless
  obtain ⟨stack, -, rfl⟩ := Option.map_eq_some_iff.1 made
  intro index native bound
  rw [natives_ofStack] at bound
  cases bound

/-- When collections are due makes no difference to a run: it ends in the same way or not at all,
with the same output, and with global variables that are the same up to a one-to-one correspondence
between the objects that can be reached from them. -/
theorem run_withGcThreshold {p : Program} {exe : Executable} (compiled : compile p = .ok exe)
    (inRange : p.SlotsInRange) {config : Config} {threshold increment : Nat}
    {clock clock' : Int64} {m m' : Machine} (made : new? exe config clock = some m)
    (made' : new? exe (config.withGcThreshold threshold increment) clock' = some m')
    {registry : Registry} (timeless : ∀ native ∈ registry.natives, native.Timeless)
    (disciplined : ∀ m₁, Reaches (fun _ => True) (link registry m).2.restart m₁ →
      m₁.Disciplined p)
    (disciplined' : ∀ m₁, Reaches (fun _ => True) (link registry m').2.restart m₁ →
      m₁.Disciplined p) (fuel : Nat) :
  (run fuel (link registry m).2).1 = (run fuel (link registry m').2).1
    ∧ (run fuel (link registry m).2).2.output = (run fuel (link registry m').2).2.output
    ∧ ∃ ρ, SameGlobals ρ (run fuel (link registry m).2).2 (run fuel (link registry m').2).2
  := by
  have builtIn : ∀ native ∈ registry.natives, native ∈ Registry.defaults.natives :=
    fun native listed => (timeless native listed).1
  have sheltered := (Session.rested (compile_eq_ok compiled) inRange
    (.link (.start made) builtIn)).start .run
  have sheltered' := (Session.rested (compile_eq_ok compiled) inRange
    (.link (.start made') builtIn)).start .run
  obtain ⟨ρ, alike⟩ := exists_alike_of_new? made made'
  obtain ⟨ending, ⟨ρ', ended⟩, secure, secure', small, small'⟩ :=
    (alike.link registry).restart.resume sheltered sheltered' inRange
      (timeless_link made timeless) disciplined disciplined' fuel
  exact ⟨ending, ended.output.symm, ended.sameGlobals secure secure' small small'⟩

/-! ### An instance -/

/-- A program that assigns two strings to a global, one after the other. -/
def overwriting : Program where
  globals := [⟨"s", .string⟩]
  statements := [.expression {} (.assignment (.readGlobal 0 .string) (.ofString "a")),
    .expression {} (.assignment (.readGlobal 0 .string) (.ofString "b"))]

def overwritingExecutable : Executable where
  constants := #[.string "a", .string "b"]
  globals := #[⟨"s", .string⟩]
  topLevel := ⟨#[6, 0, 0, 19, 0, 0, 6, 0, 1, 19, 0, 0], #[⟨0, 0, 12⟩]⟩

def overwritingMachine (threshold : Nat) : Machine :=
  ofStack overwritingExecutable (namingConfig.withGcThreshold threshold threshold) 0 (Stack.new 4 8)

/-- After so many instructions. -/
def overwritingAfter (threshold count : Nat) : Machine :=
  (resume count (overwritingMachine threshold).restart).2

theorem disciplined_overwriting (exe : m.exe = overwritingExecutable)
    (top : m.registers.current = none) {k : Nat} (inside : k ≤ 4) (place : m.registers.pc = 3 * k)
    (size : m.heap.slots.size ≤ 3) (size_step : (stateOf (step m)).heap.slots.size ≤ 3)
    (room : m.heap.threshold + m.heap.increment < 2 ^ 64) :
  m.Disciplined overwriting
  := by
  have code : m.code = overwritingExecutable.topLevel.code := by
    unfold Machine.code
    rw [exe, top]
    rfl
  have plain : ∀ i, fetch m.code m.registers.pc = .ok i →
      i.op = .pushString ∨ i.op = .popStatic .object := by
    intro i fetched
    rw [code, place] at fetched
    rcases (by omega : k = 0 ∨ k = 1 ∨ k = 2 ∨ k = 3 ∨ k = 4) with rfl | rfl | rfl | rfl | rfl
    all_goals cases fetched
    all_goals decide
  refine ⟨?_, ?_, ?_, ?_, ?_, fun _ => room⟩
  · apply callFits_of_no_call
    rw [top]
    have noCall : ∀ point ∈ overwriting.points none, point.op ≠ .invoke := by decide
    intro point listed call
    exact absurd call (noCall point listed)
  · intro i kind target v fetched store
    rcases plain i fetched with op | op
    all_goals
      rw [op] at store
      cases store
  · intro i fetched
    rcases plain i fetched with op | op
    all_goals
      refine ⟨fun _ _ _ _ => ?_, ?_, ?_⟩
      · unfold Instruction.ReadsNumbers
        rw [op]
        trivial
      · rw [op]
        nofun
      · rw [op]
        nofun
  · unfold Heap.Small
    omega
  · unfold Heap.Small
    omega

/-- With the one threshold collections are due before every instruction, with the other one
never. -/
theorem disciplined_of_reaches {threshold : Nat} (either : threshold = 0 ∨ threshold = 100)
    (reaches : Reaches (fun _ => True) (overwritingMachine threshold).restart m) :
  m.Disciplined overwriting
  := by
  have goesOn : ∀ k < 4, step (overwritingAfter threshold k)
      = .ok .running (overwritingAfter threshold (k + 1)) := by
    intro k inside
    rcases (by omega : k = 0 ∨ k = 1 ∨ k = 2 ∨ k = 3) with rfl | rfl | rfl | rfl
    all_goals
      rcases either with rfl | rfl
      all_goals cbv
  have ends : step (overwritingAfter threshold 4)
      = .ok (.finished none) (stateOf (step (overwritingAfter threshold 4))) := by
    rcases either with rfl | rfl
    all_goals cbv
  obtain ⟨k, inside, rfl⟩ : ∃ k ≤ 4, m = overwritingAfter threshold k := by
    induction reaches with
    | refl => exact ⟨0, by omega, rfl⟩
    | step _ _ stepped ih =>
      obtain ⟨k, inside, rfl⟩ := ih
      by_cases last : k = 4
      · rw [last, ends] at stepped
        cases stepped
      · rw [goesOn k (by omega)] at stepped
        cases stepped
        exact ⟨k + 1, by omega, rfl⟩
  rcases (by omega : k = 0 ∨ k = 1 ∨ k = 2 ∨ k = 3 ∨ k = 4) with rfl | rfl | rfl | rfl | rfl
  all_goals
    rcases either with rfl | rfl
    all_goals
      apply disciplined_overwriting (by cbv) (by cbv) inside (by cbv) (by cbv) (by cbv) (by cbv)

/-- Where the first string has been reclaimed, the last one has its handle; where it has not, the
last one has another handle. -/
theorem run_overwriting :
  (run 9 (overwritingMachine 0)).2.globals = #[.ref ⟨0⟩]
    ∧ (run 9 (overwritingMachine 100)).2.globals = #[.ref ⟨2⟩]
    ∧ (run 9 (overwritingMachine 0)).1 = (run 9 (overwritingMachine 100)).1
    ∧ ∃ ρ, SameGlobals ρ (run 9 (overwritingMachine 0)).2 (run 9 (overwritingMachine 100)).2
  := by
  have compiled : compile overwriting = .ok overwritingExecutable := by cbv
  have inRange : overwriting.SlotsInRange := fun _ listed => absurd listed List.not_mem_nil
  have made : new? overwritingExecutable namingConfig 0 = some (overwritingMachine 0) := rfl
  have made' : new? overwritingExecutable (namingConfig.withGcThreshold 100 100) 0
      = some (overwritingMachine 100) := rfl
  let registry : Registry := ⟨[.print, .println, .sqrt]⟩
  have timeless : ∀ native ∈ registry.natives, native.Timeless := by
    intro native listed
    simp only [registry, List.mem_cons, List.not_mem_nil, or_false] at listed
    rcases listed with rfl | rfl | rfl
    all_goals exact ⟨by simp [Registry.defaults], by decide⟩
  have same := run_withGcThreshold compiled inRange made made' timeless
    (fun _ reaches => disciplined_of_reaches (.inl rfl) reaches)
    (fun _ reaches => disciplined_of_reaches (.inr rfl) reaches) 9
  exact ⟨by cbv, by cbv, same.1, same.2.2⟩

end Machine

end Bytecode
