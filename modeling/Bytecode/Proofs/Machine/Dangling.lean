import Mathlib
import Bytecode.Proofs.Machine.Guarded

/-!
# No dangling handles

`Machine.NoDangling` says that the references in globals, in cells in use, in arrays and in
instances all name objects of the heap. It holds of every machine of a session that keeps to
`Usage.careful`, at every instruction boundary of its runs and also after a fault, as long as every
slot has a handle of its own. Hence no step crashes because an object is missing.

A host call puts the stack pointer back to where it was. The cells below are live then, because
the frames of the call lie above them and they have been roots all along.
-/

namespace Bytecode

namespace Machine

variable {m m' : Machine} {p : Program} {exe : Executable} {entry floor : Nat}

/-- The call or the store before the machine is as it should be. -/
def WellUsed (p : Program) (m : Machine) : Prop := m.CallFits p ∧ m.StoreFits

theorem Sheltered.of_reaches {start : Machine} (sheltered : start.Sheltered p entry)
    (inRange : p.SlotsInRange) (reaches : Reaches (WellUsed p) start m) :
  m.Sheltered p entry
  := by
  induction reaches with
  | refl => exact sheltered
  | step _ used stepped ih =>
    have kept := ih.step inRange used.1 used.2
    rw [stepped] at kept
    apply kept.2 rfl

/-- The host binds the built-in native functions, calls functions with live arguments, and the code
calls functions with as many arguments as they have parameters and stores references only in fields
that are declared to hold them. -/
def Usage.careful (p : Program) : Usage where
  links registry := ∀ native ∈ registry.natives, native ∈ Registry.defaults.natives
  args m args := ∀ v ∈ args, v.Live m.heap
  fits := WellUsed p

/-- Where a run has ended, in whichever way, there are no dangling handles. -/
theorem Sheltered.resume (sheltered : m.Sheltered p entry) (inRange : p.SlotsInRange)
    (used : UsedBy (.careful p) m) (fuel : Nat) :
  (resume fuel m).2.Guarded entry
  := by
  obtain ⟨m₁, reaches, ends | ends⟩ := exists_resume_eq fuel m
  · rw [ends]
    apply (sheltered.of_reaches inRange (used.reaches reaches)).guarded
  · have fits := used m₁ reaches
    have kept := (sheltered.of_reaches inRange (used.reaches reaches)).step inRange fits.1 fits.2
    rw [ends]
    cases ran : Machine.step m₁ with
    | ok next m₂ | error trap m₂ =>
      rw [ran] at kept
      apply kept.1

/-! ### Entering a run -/

theorem Guarded.restart (guarded : m.Guarded floor) :
  m.restart.Guarded 0
  := (guarded.truncate (Nat.zero_le 0) (Nat.zero_le _)).registers _

theorem Guarded.pushAll (guarded : m.Guarded floor) {args : List Value}
    (live : ∀ v ∈ args, m.HasLive v) :
  Ends (fun _ m' => m'.Guarded floor) (Fails floor StackTooLarge) (pushAll args m)
  := by
  induction args generalizing m with
  | nil => exact guarded
  | cons v rest ih =>
    have pushed := guarded.push (live v List.mem_cons_self)
    unfold Machine.pushAll
    cases ran : Machine.push v m with
    | error trap m₁ =>
      rw [ran] at pushed
      rw [bind_of_error ran]
      exact pushed
    | ok _ m₁ =>
      rw [ran] at pushed
      rw [bind_of_ok ran]
      apply ih pushed
      obtain ⟨s, -, rfl⟩ := onStack_eq_ok ran
      exact fun w listed => live w (List.mem_cons_of_mem _ listed)

/-- A call from the host with live arguments. -/
theorem Guarded.beginCall (guarded : m.Guarded m.stack.sp) (harmless : m.Harmless)
    (linked : m.Linked) {index : Nat} {f : Function} {args : List Value}
    (found : m.exe.functions[index]? = some f) (count : f.params.length = args.length)
    (live : ∀ v ∈ args, m.HasLive v) :
  Ends (fun _ m' => m'.Guarded m.stack.sp) (Fails m.stack.sp StackTooLarge)
    (beginCall index f args m)
  := by
  have pushed := guarded.pushAll live
  unfold Machine.beginCall
  cases ran : Machine.pushAll args m with
  | error trap m₁ =>
    rw [ran] at pushed
    rw [bind_of_error ran]
    exact pushed
  | ok _ m₁ =>
    rw [ran] at pushed
    rw [bind_of_ok ran]
    obtain ⟨extended, same⟩ := pushAll_eq_ok ran
    have sp := extended.sp_eq
    rw [List.length_map] at sp
    have held : m₁.stack.Holds m.stack.sp args := by
      refine ⟨sp, pushed.fits, ?_⟩
      intro k v listed
      apply extended.cell
      rw [List.getElem?_map, listed]
      rfl
    have found₁ : m₁.exe.functions[index]? = some f := by rw [same]; exact found
    have harmless₁ : m₁.Harmless := by rw [same]; exact harmless
    have linked₁ : m₁.Linked := by rw [same]; exact linked
    split
    · have called := pushed.callNative harmless₁ linked₁ found₁ held (Nat.le_refl _) count.symm
      cases ran₂ : Machine.callNative index f m₁ with
      | error trap m₂ =>
        rw [ran₂] at called
        rw [bind_of_error ran₂]
        exact called
      | ok _ m₂ =>
        rw [ran₂] at called
        rw [bind_of_ok ran₂]
        -- the result is popped again
        obtain ⟨-, r, -, -, rewritten, -⟩ :=
          callNative_eq_ok linked₁ found₁ held count.symm ran₂
        have top := rewritten.holds.sp_eq
        rw [List.length_singleton] at top
        have held₂ : m₂.stack.Holds m.stack.sp ([] ++ [r]) := rewritten.holds
        rw [bind_of_ok (pop_eq held₂)]
        apply Guarded.lowered called 1 (by omega)
    · have entered := pushed.enterFunction .host found₁ (by omega)
      exact entered.bind fun _ _ kept => kept

/-- A run is entered by the top level, or by a call of a function from the host with arguments as
they are meant to be. -/
inductive Starts (usage : Usage) (m : Machine) : Nat → Machine → Prop
  | run : Starts usage m 0 m.restart
  | call {index : Nat} {f : Function} {args : List Value} {m' : Machine} :
      m.exe.functions[index]? = some f → f.params.length = args.length → usage.args m args →
      beginCall index f args m = .ok none m' → Starts usage m m.stack.sp m'

theorem Starts.enters {usage : Usage} (starts : m.Starts usage entry m') :
  m.Enters entry m'
  := by
  cases starts with
  | run => exact .run
  | call found count _ begun => exact .call found count begun

/-- The host may turn to the machine: it runs compiled code and has no dangling handles. -/
structure Rested (p : Program) (m : Machine) : Prop where
  compiled : CompiledFrom p m.exe
  linked : m.Linked
  harmless : m.Harmless
  guarded : m.Guarded m.stack.sp

/-- Entering a run leaves no dangling handle. -/
theorem Rested.start (rested : m.Rested p) (starts : m.Starts (.careful p) entry m') :
  m'.Sheltered p entry
  := by
  obtain ⟨compiled, linked, harmless, guarded⟩ := rested
  have framed := starts.enters.framed compiled linked
  obtain ⟨exe, natives⟩ := starts.enters.sameProgram
  have harmless' : m'.Harmless := by
    unfold Harmless
    rw [natives]
    exact harmless
  refine ⟨exe ▸ compiled, harmless', framed, ?_⟩
  cases starts with
  | run => exact guarded.restart
  | call found count live begun =>
    have entered := guarded.beginCall harmless linked found count fun v listed _ =>
      live v listed
    rw [begun] at entered
    exact entered

/-- Whatever comes of a call from the host, nothing dangles. -/
theorem Rested.enterFromHost (rested : m.Rested p) (inRange : p.SlotsInRange) {index : Nat}
    {args : List Value} (live : ∀ v ∈ args, v.Live m.heap)
    (used : ∀ f m', beginCall index f args m = .ok none m' → UsedBy (.careful p) m') (fuel : Nat) :
  (enterFromHost fuel index args m).2.Guarded m.stack.sp
  := by
  rcases enterFromHost_eq fuel index args m with same | ⟨f, found, count, same | ⟨m₁, ran, same⟩⟩
  · rw [same]
    exact rested.guarded
  · have begun := rested.guarded.beginCall rested.harmless rested.linked found count
      fun v listed _ => live v listed
    rw [same]
    exact begun.state (fun _ _ guarded => guarded) fun _ _ fails => fails.1
  · rw [same]
    exact (rested.start (.call found count live ran)).resume inRange (used f m₁ ran) fuel

/-! ### Sessions -/

theorem guarded_ofStack {config : Config} {stack : Stack} (empty : stack.sp = 0) (clock : Int64) :
  (ofStack exe config clock stack).Guarded 0
  := by
  let masks := exe.classes.map Class.referenceFields
  let heap := Heap.new config.gcThreshold config.gcThresholdIncrement masks
  obtain ⟨sound, grows, length, each⟩ :=
    (Heap.Sound.new config.gcThreshold config.gcThresholdIncrement masks).defaultValues
      (exe.globals.toList.map (·.ty))
  refine ⟨⟨sound, grows.masks, ?_⟩, Nat.zero_le _, ?_, ?_⟩
  · intro small k v found
    change (heap.defaultValues _).1.toArray[k]? = some v at found
    rw [List.getElem?_toArray] at found
    have inside := (List.getElem?_eq_some_iff.1 found).1
    rw [length] at inside
    apply (each k v _ found (List.getElem?_eq_getElem inside)).1 small
  · change stack.sp ≤ stack.cells.size
    omega
  · intro k v used
    change k < stack.sp at used
    omega

theorem Guarded.atTop (guarded : m.Guarded floor) :
  m.Guarded m.stack.sp
  := guarded.truncate (Nat.le_refl _) (Nat.le_refl _)

theorem harmless_ofStack (exe : Executable) (config : Config) (clock : Int64) (stack : Stack) :
  (ofStack exe config clock stack).Harmless
  := by
  intro index native bound
  rw [natives_ofStack] at bound
  cases bound

theorem Harmless.link (harmless : m.Harmless) {registry : Registry}
    (benign : ∀ native ∈ registry.natives, native.Benign) :
  (link registry m).2.Harmless
  := link_bound harmless benign

theorem sp_of_tryNew {size limit : Nat} {stack : Stack} (made : Stack.tryNew size limit = some stack) :
  stack.sp = 0
  := by
  unfold Stack.tryNew at made
  split at made
  all_goals cases made
  rfl

theorem Guarded.link (guarded : m.Guarded floor) (registry : Registry) :
  (link registry m).2.Guarded floor
  := ⟨⟨guarded.secure.sound, guarded.secure.masks, guarded.secure.globals⟩, guarded.floor_le,
    guarded.fits, guarded.cells⟩

/-- Whether or not a collection fails, it leaves a machine guarded. -/
theorem Guarded.stateOf_collect (guarded : m.Guarded floor) :
  (stateOf (Machine.collect m)).Guarded floor
  := by
  have kept := guarded.collect
  cases ran : Machine.collect m with
  | ok count m₁ | error trap m₁ =>
    rw [ran] at kept
    exact kept.1

/-- In a session only natives are bound that the host has linked. -/
theorem Session.harmless {usage : Usage} (session : Session exe usage m)
    (benign : ∀ registry, usage.links registry → ∀ native ∈ registry.natives, native.Benign) :
  m.Harmless
  := by
  induction session with
  | start made =>
    obtain ⟨stack, -, rfl⟩ := Option.map_eq_some_iff.1 made
    exact harmless_ofStack _ _ _ _
  | link _ linked ih => exact ih.link (benign _ linked)
  | run fuel _ _ ih =>
    unfold Harmless
    rw [(SameProgram.law.run fuel _).natives]
    exact ih
  | call fuel index _ _ _ ih =>
    unfold Harmless
    rw [(SameProgram.law.callFunction fuel index _ _).natives]
    exact ih
  | collect _ ih =>
    unfold Harmless
    rw [(SameProgram.law.collect _).natives]
    exact ih

/-- Between the requests of a host that is careful nothing dangles. -/
theorem Session.rested (compiled : CompiledFrom p exe) (inRange : p.SlotsInRange)
    (session : Session exe (.careful p) m) :
  m.Rested p
  := by
  have rest {m : Machine} (session : Session exe (.careful p) m) (kept : m.Guarded m.stack.sp) :
      m.Rested p :=
    ⟨session.exe_eq ▸ compiled, session.linked, session.harmless fun _ builtIn native listed =>
      Native.benign_of_mem_defaults (builtIn native listed), kept⟩
  apply rest session
  induction session with
  | start made =>
    obtain ⟨stack, fresh, rfl⟩ := Option.map_eq_some_iff.1 made
    exact (guarded_ofStack (sp_of_tryNew fresh) _).atTop
  | link _ _ ih => exact ih.link _
  | @run m fuel session used ih =>
    have sheltered := (rest session ih).start .run
    apply (sheltered.resume inRange used fuel).atTop
  | @call m args fuel index session live used ih =>
    have ended := (rest session ih).enterFromHost inRange live used fuel
    apply (ended.truncate (Nat.le_refl _) ended.floor_le).registers
  | collect _ ih => exact ih.stateOf_collect.atTop

def namingExecutable : Executable where
  constants := #[.string "a"]
  globals := #[⟨"s", .string⟩]
  topLevel := ⟨#[6, 0, 0, 19, 0, 0], #[⟨0, 0, 6⟩]⟩

/-- A collection is due before every instruction. -/
def namingConfig : Config where
  initialStackSize := 4
  maxStackSize := 8
  gcThreshold := 0
  gcThresholdIncrement := 0

def namingMachine : Machine := ofStack namingExecutable namingConfig 0 (Stack.new 4 8)

/-- After so many instructions. -/
def namingAfter (count : Nat) : Machine := (resume count namingMachine.restart).2

end Machine

end Bytecode
