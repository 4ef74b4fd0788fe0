import Mathlib
import Bytecode.Proofs.Machine.Frames
import Bytecode.Proofs.Machine.Laws

/-!
# Runs and sessions

A run goes from the machine with which it was entered through the machines at its instruction
boundaries, `Machine.Reaches`. A session is what a host does with a machine: it links native
functions, runs the top level, calls functions and collects garbage, in any order. A `Usage` says
to what the host and the code keep.

What follows a law at every step follows it throughout a run, and throughout what a host does. No
action of a machine changes its executable or its native functions, so these are the same
throughout a session, and frames are in order at every instruction boundary of its runs.
-/

namespace Bytecode

open Machine

/-! ### The program of a machine -/

/-- The machines have the same executable and the same native functions. -/
structure SameProgram (m m' : Machine) : Prop where
  exe : m'.exe = m.exe
  natives : m'.natives = m.natives

theorem SameProgram.refl (m : Machine) :
  SameProgram m m
  := ⟨rfl, rfl⟩

theorem SameProgram.trans {m₁ m₂ m₃ : Machine} (first : SameProgram m₁ m₂)
    (second : SameProgram m₂ m₃) :
  SameProgram m₁ m₃
  := ⟨second.exe.trans first.exe, second.natives.trans first.natives⟩

instance : IsPreorder Machine SameProgram where
  refl := .refl
  trans _ _ _ := .trans

/-- No action changes the program of a machine. -/
theorem SameProgram.law :
  Law SameProgram
  := by
  apply Law.of_stackless
  · exact fun _ _ _ => ⟨rfl, rfl⟩
  · exact fun off _ m => ⟨off.exe m, off.natives m⟩
  · intro m
    obtain ⟨host, collected⟩ := stateOf_collect m
    rw [collected]
    exact ⟨rfl, rfl⟩
  · intro m index native args _
    have off : OffStack (onHost (native.run args)) := .onHost _
    exact ⟨off.exe m, off.natives m⟩

/-! ### Runs -/

namespace Machine

variable {m m' : Machine}

/-- The machines at the instruction boundaries of a run, where every instruction that has been
executed found a machine that satisfies a condition. -/
inductive Reaches (Fits : Machine → Prop) (start : Machine) : Machine → Prop
  | refl : Reaches Fits start start
  | step {m m' : Machine} :
      Reaches Fits start m → Fits m → Machine.step m = .ok .running m' → Reaches Fits start m'

theorem Reaches.mono {Fits Fits' : Machine → Prop} {start : Machine}
    (weaker : ∀ m, Fits m → Fits' m) (reaches : Reaches Fits start m) :
  Reaches Fits' start m
  := by
  induction reaches with
  | refl => exact .refl
  | step _ fits stepped ih => exact .step ih (weaker _ fits) stepped

theorem Reaches.head {Fits : Machine → Prop} {start : Machine} (fits : Fits start)
    (stepped : Machine.step start = .ok .running m) (reaches : Reaches Fits m m') :
  Reaches Fits start m'
  := by
  induction reaches with
  | refl => exact .step .refl fits stepped
  | step _ fits' stepped' ih => exact .step ih fits' stepped'

theorem Reaches.eq_or_head {Fits : Machine → Prop} {start : Machine}
    (reaches : Reaches Fits start m) :
  m = start ∨ ∃ next, Machine.step start = .ok .running next ∧ Reaches Fits next m
  := by
  induction reaches with
  | refl => exact .inl rfl
  | @step m m' _ fits stepped ih =>
    rcases ih with same | ⟨next, first, rest⟩
    · exact .inr ⟨m', same ▸ stepped, .refl⟩
    · exact .inr ⟨next, first, .step rest fits stepped⟩

/-- A run ends where its fuel does or with the step that ends it. -/
theorem exists_resume_eq (fuel : Nat) (start : Machine) :
  ∃ m, Reaches (fun _ => True) start m
    ∧ ((resume fuel start).2 = m ∨ (resume fuel start).2 = stateOf (step m))
  := by
  induction fuel generalizing start with
  | zero => exact ⟨start, .refl, .inl rfl⟩
  | succ fuel ih =>
    unfold resume
    split
    · next m stepped =>
        obtain ⟨m', reaches, ends⟩ := ih m
        exact ⟨m', reaches.head trivial stepped, ends⟩
    · next stepped => exact ⟨start, .refl, .inr (by rw [stepped, stateOf_ok])⟩
    · next stepped =>
        refine ⟨start, .refl, .inr ?_⟩
        rw [stepped, stateOf_error]
        split
        all_goals rfl
    · next stepped => exact ⟨start, .refl, .inr (by rw [stepped, stateOf_error])⟩

/-- A call from the host is refused, or ends as soon as it begins, or goes on as a run. -/
theorem enterFromHost_eq (fuel index : Nat) (args : List Value) (m : Machine) :
  (enterFromHost fuel index args m).2 = m
    ∨ ∃ f, m.exe.functions[index]? = some f ∧ f.params.length = args.length
      ∧ ((enterFromHost fuel index args m).2 = stateOf (beginCall index f args m)
        ∨ ∃ m₁, beginCall index f args m = .ok none m₁
          ∧ (enterFromHost fuel index args m).2 = (resume fuel m₁).2)
  := by
  unfold enterFromHost
  split
  · exact .inl rfl
  · next f found =>
      split
      · exact .inl rfl
      · next count =>
          refine .inr ⟨f, found, not_not.1 count, ?_⟩
          split
          · next ran => exact .inl (by rw [ran, stateOf_error])
          · next ran => exact .inl (by rw [ran, stateOf_error])
          · next ran => exact .inl (by rw [ran, stateOf_ok])
          · next ran => exact .inr ⟨_, ran, rfl⟩

end Machine

namespace Law

variable {R : Machine → Machine → Prop} [IsPreorder Machine R] {m : Machine}

theorem reaches {Fits : Machine → Prop} {start : Machine} (law : Law R)
    (reaches : Reaches Fits start m) :
  R start m
  := by
  induction reaches with
  | refl => exact refl_of R _
  | @step m m' _ _ stepped ih =>
    have followed := law.step m
    rw [stepped] at followed
    exact trans_of R ih followed

theorem resume (law : Law R) (fuel : Nat) (start : Machine) :
  R start (Machine.resume fuel start).2
  := by
  obtain ⟨m, reaches, ends | ends⟩ := exists_resume_eq fuel start
  · rw [ends]
    exact law.reaches reaches
  · rw [ends]
    exact trans_of R (law.reaches reaches) (law.step m)

theorem run (law : Law R) (fuel : Nat) (m : Machine) :
  R m (Machine.run fuel m).2
  := trans_of R (law.restart m) (law.resume fuel m.restart)

theorem enterFromHost (law : Law R) (fuel index : Nat) (args : List Value) (m : Machine) :
  R m (Machine.enterFromHost fuel index args m).2
  := by
  rcases enterFromHost_eq fuel index args m with same | ⟨f, -, -, same | ⟨m₁, ran, same⟩⟩
  · rw [same]
    exact refl_of R m
  · rw [same]
    exact law.beginCall index f args m
  · have begun := law.beginCall index f args m
    rw [ran] at begun
    rw [same]
    exact trans_of R begun (law.resume fuel m₁)

theorem callFunction (law : Law R) (fuel index : Nat) (args : List Value) (m : Machine) :
  R m (Machine.callFunction fuel index args m).2
  := law.withFrameOf m _ (law.enterFromHost fuel index args m)

end Law

namespace Machine

variable {m m' start : Machine} {usage : Usage}

theorem Reaches.sameProgram {Fits : Machine → Prop} (reaches : Reaches Fits start m) :
  SameProgram start m
  := SameProgram.law.reaches reaches

/-! ### Linking -/

/-- No native function of a new machine is bound. -/
theorem natives_ofStack (exe : Executable) (config : Config) (clock : Int64) (stack : Stack)
    (index : Nat) :
  ((ofStack exe config clock stack).natives[index]?).join = none
  := by
  change ((Array.replicate exe.functions.size none)[index]?).join = none
  rw [Array.getElem?_replicate]
  split
  · rfl
  · rfl

/-- What has been bound is what was bound before, or found for a native function by package and name
with the number of arguments of the function. -/
theorem linkFrom_bound (Good : Nat → Native → Prop) {registry : Registry} {index : Nat}
    {fs : List Function} {natives : Array (Option Native)}
    (old : ∀ (k : Nat) native, (natives[k]?).join = some native → Good k native)
    (new : ∀ (k : Nat) f native, fs[k]? = some f → f.isNative →
      registry.lookup? f.package f.name = some native → native.arity = f.params.length →
      Good (index + k) native) :
  ∀ (k : Nat) native, ((linkFrom registry index fs natives).2[k]?).join = some native →
    Good k native
  := by
  induction fs generalizing index natives with
  | nil => exact old
  | cons f rest ih =>
    have later : ∀ (k : Nat) g native, rest[k]? = some g → g.isNative →
        registry.lookup? g.package g.name = some native → native.arity = g.params.length →
        Good (index + 1 + k) native := by
      intro k g native listed noCode found arity
      rw [Nat.add_assoc, Nat.add_comm 1]
      exact new (k + 1) g native listed noCode found arity
    unfold linkFrom
    split
    · next noCode =>
        split
        · exact old
        · next native found =>
            split
            · exact old
            · next arity =>
                apply ih _ later
                intro k other bound
                rw [Array.getElem?_setIfInBounds] at bound
                split at bound
                · next same =>
                    subst same
                    split at bound
                    · cases bound
                      exact new 0 f _ rfl noCode found (by simpa using arity)
                    · cases bound
                · exact old k other bound
    · exact ih old later

/-- What is common to all procedures that are bound and to those of a registry is common to those that
are bound when the registry has been linked. -/
theorem link_bound {Good : Native → Prop} {registry : Registry}
    (old : ∀ (index : Nat) native, (m.natives[index]?).join = some native → Good native)
    (listed : ∀ native ∈ registry.natives, Good native) :
  ∀ (index : Nat) native, ((link registry m).2.natives[index]?).join = some native → Good native
  := by
  apply linkFrom_bound (fun _ native => Good native) old
  intro k f native _ _ found _
  exact listed native (List.mem_of_find?_eq_some found)

theorem Linked.link {m : Machine} (linked : m.Linked) (registry : Registry) :
  (link registry m).2.Linked
  := by
  intro index native f bound found
  refine linkFrom_bound (fun k native => ∀ f, m.exe.functions[k]? = some f →
    native.arity = f.params.length) ?_ ?_ index native bound f found
  · intro k native bound f found
    exact linked k native f bound found
  · intro k f native listed _ _ arity g found
    rw [Nat.zero_add] at found
    rw [Array.getElem?_toList, found] at listed
    cases listed
    exact arity

theorem SameProgram.linked (same : SameProgram m m') (linked : m.Linked) :
  m'.Linked
  := by
  unfold Linked
  rw [same.exe, same.natives]
  exact linked

/-! ### Sessions -/

/-- How a machine is used: with which native functions it is linked, with which arguments
functions are called, and what holds of it before each instruction. -/
structure Usage where
  links : Registry → Prop
  args : Machine → List Value → Prop
  fits : Machine → Prop

/-- No condition on how a machine is used. -/
def Usage.any : Usage := ⟨fun _ => True, fun _ _ => True, fun _ => True⟩

/-- A run is entered by the top level, or by a call of a function from the host. Given is the
stack pointer before it. -/
inductive Enters (m : Machine) : Nat → Machine → Prop
  | run : Enters m 0 m.restart
  | call {index : Nat} {f : Function} {args : List Value} {m' : Machine} :
      m.exe.functions[index]? = some f → f.params.length = args.length →
      beginCall index f args m = .ok none m' → Enters m m.stack.sp m'

/-- All instructions of the run with which the machine is entered find it as it is meant to
be used. -/
def UsedBy (usage : Usage) (m : Machine) : Prop :=
  ∀ m', Reaches (fun _ => True) m m' → usage.fits m'

theorem UsedBy.reaches (used : UsedBy usage start) (reaches : Reaches (fun _ => True) start m) :
  Reaches usage.fits start m
  := by
  induction reaches with
  | refl => exact .refl
  | step reached _ stepped ih => exact .step ih (used _ reached) stepped

theorem UsedBy.of_step (fits : usage.fits m) (stepped : step m = .ok .running m')
    (used : UsedBy usage m') :
  UsedBy usage m
  := by
  intro reached reaches
  rcases reaches.eq_or_head with rfl | ⟨next, first, rest⟩
  · exact fits
  · rw [stepped] at first
    cases first
    exact used reached rest

theorem UsedBy.of_error {e : Stop Fault} (fits : usage.fits m) (failed : step m = .error e m') :
  UsedBy usage m
  := by
  intro reached reaches
  rcases reaches.eq_or_head with rfl | ⟨next, first, _⟩
  · exact fits
  · rw [failed] at first
    cases first

/-- The machines that a host has between its requests. -/
inductive Session (exe : Executable) (usage : Usage) : Machine → Prop
  | start {config : Config} {clock : Int64} {m : Machine} :
      new? exe config clock = some m → Session exe usage m
  | link {m : Machine} {registry : Registry} :
      Session exe usage m → usage.links registry → Session exe usage (link registry m).2
  | run {m : Machine} (fuel : Nat) :
      Session exe usage m → UsedBy usage m.restart → Session exe usage (run fuel m).2
  | call {m : Machine} {args : List Value} (fuel index : Nat) :
      Session exe usage m → usage.args m args →
      (∀ f m', beginCall index f args m = .ok none m' → UsedBy usage m') →
      Session exe usage (callFunction fuel index args m).2
  | collect {m : Machine} : Session exe usage m → Session exe usage (stateOf (collect m))

namespace Session

variable {exe : Executable} {usage : Usage} {m m' : Machine}

theorem exe_eq (session : Session exe usage m) :
  m.exe = exe
  := by
  induction session with
  | start made =>
    obtain ⟨stack, -, rfl⟩ := Option.map_eq_some_iff.1 made
    rfl
  | link _ _ ih => exact ih
  | run fuel _ _ ih => exact (SameProgram.law.run fuel _).exe.trans ih
  | call fuel index _ _ _ ih => exact (SameProgram.law.callFunction fuel index _ _).exe.trans ih
  | @collect m _ ih =>
    obtain ⟨host, collected⟩ := stateOf_collect m
    rw [collected]
    exact ih

/-- The native functions of a session take as many arguments as they are declared to. -/
theorem linked (session : Session exe usage m) :
  m.Linked
  := by
  induction session with
  | start made =>
    obtain ⟨stack, -, rfl⟩ := Option.map_eq_some_iff.1 made
    intro index native f bound _
    rw [natives_ofStack] at bound
    cases bound
  | @link m registry _ _ ih => exact ih.link registry
  | run fuel _ _ ih => exact SameProgram.linked (SameProgram.law.run fuel _) ih
  | call fuel index _ _ _ ih => exact SameProgram.linked (SameProgram.law.callFunction fuel index _ _) ih
  | @collect m _ ih =>
    obtain ⟨host, collected⟩ := stateOf_collect m
    rw [collected]
    exact ih

end Session

/-- What becomes of a machine by the requests of a host, whose native functions are such as
allowed. -/
inductive Served (links : Registry → Prop) (start : Machine) : Machine → Prop
  | refl : Served links start start
  | link {m : Machine} {registry : Registry} :
      Served links start m → links registry → Served links start (link registry m).2
  | run {m : Machine} (fuel : Nat) : Served links start m → Served links start (run fuel m).2
  | call {m : Machine} (fuel index : Nat) (args : List Value) :
      Served links start m → Served links start (callFunction fuel index args m).2
  | collect {m : Machine} : Served links start m → Served links start (stateOf (collect m))

/-- A session consists of requests to the machine with which it started. -/
theorem Session.served {exe : Executable} (session : Session exe usage m) :
  ∃ config clock start, new? exe config clock = some start ∧ Served usage.links start m
  := by
  induction session with
  | start made => exact ⟨_, _, _, made, .refl⟩
  | link _ allowed ih =>
    obtain ⟨config, clock, start, made, served⟩ := ih
    exact ⟨config, clock, start, made, served.link allowed⟩
  | run fuel _ _ ih =>
    obtain ⟨config, clock, start, made, served⟩ := ih
    exact ⟨config, clock, start, made, served.run fuel⟩
  | @call m args fuel index _ _ _ ih =>
    obtain ⟨config, clock, start, made, served⟩ := ih
    exact ⟨config, clock, start, made, served.call fuel index args⟩
  | collect _ ih =>
    obtain ⟨config, clock, start, made, served⟩ := ih
    exact ⟨config, clock, start, made, served.collect⟩

/-- What a host does follows a law that linking follows. -/
theorem Served.follows {R : Machine → Machine → Prop} [IsPreorder Machine R] (law : Law R)
    {links : Registry → Prop}
    (linking : ∀ (m : Machine) (registry : Registry), links registry → R m (Machine.link registry m).2)
    (served : Served links start m) :
  R start m
  := by
  induction served with
  | refl => exact refl_of R _
  | @link m registry _ allowed ih => exact trans_of R ih (linking m registry allowed)
  | @run m fuel _ ih => exact trans_of R ih (law.run fuel m)
  | @call m fuel index args _ ih => exact trans_of R ih (law.callFunction fuel index args m)
  | @collect m _ ih => exact trans_of R ih (law.collect m)

/-- The entry of a run follows every law. -/
theorem Enters.follows {R : Machine → Machine → Prop} [IsPreorder Machine R] (law : Law R)
    {entry : Nat} (enters : m.Enters entry m') :
  R m m'
  := by
  cases enters with
  | run => exact law.restart m
  | @call index f args _ _ _ begun =>
    have followed := law.beginCall index f args m
    rw [begun] at followed
    exact followed

/-! ### Frames of a run -/

section

variable {p : Program} {exe : Executable} {entry : Nat} {m m' start : Machine}

theorem pushAll_eq_ok {args : List Value} (run : pushAll args m = .ok () m') :
  m.stack.Extended (args.map .value) m'.stack ∧ m' = { m with stack := m'.stack }
  := by
  induction args generalizing m with
  | nil =>
    cases run
    exact ⟨.refl _, rfl⟩
  | cons v rest ih =>
    obtain ⟨_, m₁, run₁, rest₁⟩ := bind_eq_ok.1 run
    obtain ⟨pushed, same⟩ := push_eq_ok run₁
    obtain ⟨extended, same'⟩ := ih rest₁
    refine ⟨pushed.trans extended, ?_⟩
    rw [same', same]

/-- What has happened when a call from the host has entered a function. -/
theorem beginCall_eq_none {index : Nat} {f : Function} {args : List Value}
    (count : f.params.length = args.length) (run : beginCall index f args m = .ok none m') :
  f.isNative = false
    ∧ (∃ info : CallInfo, ∃ vs : List Value, info.caller = .host ∧ vs.length = f.locals.length
      ∧ m.stack.Extended (args.map .value ++ .call info :: vs.map .value) m'.stack)
    ∧ m' = { m with
        stack := m'.stack
        host := m'.host
        registers := { m.registers with current := some index, pc := 0, base := m.stack.sp } }
  := by
  obtain ⟨_, m₁, run₁, rest₁⟩ := bind_eq_ok.1 run
  obtain ⟨pushed, same⟩ := pushAll_eq_ok run₁
  have sp := pushed.sp_eq
  rw [List.length_map] at sp
  split at rest₁
  · obtain ⟨_, m₂, -, rest₂⟩ := bind_eq_ok.1 rest₁
    obtain ⟨_, m₃, -, rest₃⟩ := bind_eq_ok.1 rest₂
    cases rest₃
  · next native =>
      obtain ⟨_, m₂, run₂, rest₂⟩ := bind_eq_ok.1 rest₁
      cases rest₂
      obtain ⟨⟨vs, length, extended⟩, same'⟩ := enterFunction_eq_ok (by omega) run₂
      have base : m₁.stack.sp - f.params.length = m.stack.sp := by omega
      refine ⟨by simpa using native, ⟨_, vs, rfl, length, pushed.trans extended⟩, ?_⟩
      rw [same', base, same]

theorem Enters.sameProgram (enters : m.Enters entry m') :
  SameProgram m m'
  := enters.follows SameProgram.law

/-- Frames are in order when a run is entered. -/
theorem Enters.framed (compiled : CompiledFrom p m.exe) (linked : m.Linked)
    (enters : m.Enters entry m') :
  m'.Framed p entry
  := by
  cases enters with
  | run =>
    refine ⟨linked, .topLevel rfl, [], ⟨rfl, Nat.zero_le _, nofun⟩, ?_⟩
    rcases p.lands_points_topLevel with lands | empty
    · exact .inl lands
    · exact .inr ⟨rfl, empty.symm, rfl⟩
  | @call index f args _ found count begun =>
    obtain ⟨code, ⟨info, vs, host, length, extended⟩, same⟩ := beginCall_eq_none count begun
    obtain ⟨frame, empty⟩ := extended.frameAt count.symm length
    rw [same]
    refine ⟨linked, .host found frame host, [], ?_, ?_⟩
    · have size := Executable.frameSize_eq found
      change m'.stack.Holds (m.stack.sp + m.exe.frameSize (some index)) []
      rwa [size]
    · exact .inl (compiled.lands_points found code)

/-- Frames are in order at every instruction boundary of a run whose calls have as many arguments
as they should. -/
theorem Framed.of_reaches (compiled : CompiledFrom p start.exe) (inRange : p.SlotsInRange)
    (framed : start.Framed p entry) (reaches : Reaches (CallFits p) start m) :
  m.Framed p entry
  := by
  induction reaches with
  | refl => exact framed
  | step reached fits stepped ih =>
    rw [← reached.sameProgram.exe] at compiled
    exact ih.step compiled inRange fits stepped

end

end Machine

end Bytecode
