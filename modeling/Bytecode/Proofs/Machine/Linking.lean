import Mathlib
import Bytecode.Proofs.Machine.Evolution

/-!
# Linking

A registry is built by a sequence of registrations, and the last one under a package and a name
counts. Linking goes through the native functions in order: it binds each of them to what is
registered for it, and stops at the first for which nothing suitable is. Since what it has bound by
then stays bound, the procedures of a machine may come from different registries; but each of them
has the package, the name and the number of arguments of its function, `Machine.WellBound`.
-/

namespace Bytecode

/-! ### Registrations -/

/-- The registry that a sequence of registrations builds. -/
def Registry.registered (calls : List Native) : Registry :=
  calls.foldl (fun registry native => registry.register native) {}

/-- The procedure that was registered last under a package and a name. -/
def lastRegistered? (calls : List Native) (package name : String) : Option Native :=
  calls.findRev? fun native => native.package = package ∧ native.name = name

namespace Registry

theorem find?_put (native : Native) (natives : List Native) (package name : String) :
  (put native natives).find? (fun n => n.package = package ∧ n.name = name)
    = if native.package = package ∧ native.name = name then some native
      else natives.find? fun n => n.package = package ∧ n.name = name
  := by
  induction natives with
  | nil =>
    by_cases asked : native.package = package ∧ native.name = name
    · simp [put, asked]
    · simp [put, asked]
  | cons first rest ih =>
    unfold put
    by_cases replaced : first.package = native.package ∧ first.name = native.name
    · rw [if_pos replaced, List.find?_cons, List.find?_cons, replaced.1, replaced.2]
      by_cases asked : native.package = package ∧ native.name = name
      · simp [asked]
      · simp [asked]
    · rw [if_neg replaced, List.find?_cons, List.find?_cons, ih]
      by_cases found : first.package = package ∧ first.name = name
      · have other : ¬(native.package = package ∧ native.name = name) := by
          rintro ⟨rfl, rfl⟩
          exact replaced found
        simp [found, other]
      · simp [found]

/-- The last registration under a key counts, and no other one. -/
theorem lookup?_registered (calls : List Native) (package name : String) :
  (registered calls).lookup? package name = lastRegistered? calls package name
  := by
  induction calls using List.reverseRecOn with
  | nil => rfl
  | append_singleton calls native ih =>
    have built : registered (calls ++ [native]) = (registered calls).register native :=
      List.foldl_append
    rw [lookup?] at ih
    rw [built, lookup?, register, find?_put, ih, lastRegistered?, lastRegistered?,
      List.findRev?_eq_find?_reverse, List.findRev?_eq_find?_reverse, List.reverse_append,
      List.reverse_singleton, List.singleton_append, List.find?_cons]
    by_cases asked : native.package = package ∧ native.name = name
    · simp [asked]
    · simp [asked]

example : registered [.print, .println, .sqrt, .nowMillis] = defaults := by rfl

end Registry

/-- A procedure with as many arguments as the function has parameters is registered under exactly
its package and name. -/
def Function.Provided (calls : List Native) (f : Function) : Prop :=
  ∃ native, lastRegistered? calls f.package f.name = some native
    ∧ native.arity = f.params.length

/-- What the error says that is raised for a function for which nothing suitable is registered. -/
inductive LinkError.About (calls : List Native) (f : Function) : LinkError → Prop
  | missing :
      lastRegistered? calls f.package f.name = none →
      About calls f (.nativeNotFound f.package f.name)
  | mismatch {native : Native} :
      lastRegistered? calls f.package f.name = some native → native.arity ≠ f.params.length →
      About calls f (.argumentCountMismatch native.qualifiedName native.arity f.params.length)

theorem LinkError.About.not_provided {calls : List Native} {f : Function} {e : LinkError}
    (about : e.About calls f) :
  ¬f.Provided calls
  := by
  rintro ⟨native, found, arity⟩
  cases about with
  | missing absent =>
    rw [absent] at found
    cases found
  | mismatch found' differs =>
    rw [found'] at found
    cases found
    exact differs arity

namespace Machine

variable {calls : List Native} {index : Nat} {f : Function} {fs : List Function}
  {natives : Array (Option Native)}

/-! ### One function after the other -/

/-- What linking does with the next function: it skips one with code, binds a native one for which
something suitable is registered, and stops at any other one. -/
theorem linkFrom_cons (calls : List Native) (index : Nat) (f : Function) (fs : List Function)
    (natives : Array (Option Native)) :
  (f.isNative = false ∧ linkFrom (.registered calls) index (f :: fs) natives
      = linkFrom (.registered calls) (index + 1) fs natives)
    ∨ (f.isNative = true ∧ ∃ native, lastRegistered? calls f.package f.name = some native
      ∧ native.arity = f.params.length
      ∧ linkFrom (.registered calls) index (f :: fs) natives
        = linkFrom (.registered calls) (index + 1) fs (natives.setIfInBounds index (some native)))
    ∨ (f.isNative = true ∧ ∃ e : LinkError, e.About calls f
      ∧ linkFrom (.registered calls) index (f :: fs) natives = (.error e, natives))
  := by
  rw [linkFrom, Registry.lookup?_registered]
  cases noCode : f.isNative with
  | false => exact .inl ⟨rfl, rfl⟩
  | true =>
    right
    cases found : lastRegistered? calls f.package f.name with
    | none => exact .inr ⟨rfl, _, .missing found, rfl⟩
    | some native =>
      by_cases arity : native.arity = f.params.length
      · exact .inl ⟨rfl, native, rfl, arity, by simp [arity]⟩
      · exact .inr ⟨rfl, _, .mismatch found arity, by simp [arity]⟩

/-- Linking ends well, or with an error about the first function that lacks something. -/
theorem linkFrom_fst (calls : List Native) (index : Nat) (fs : List Function)
    (natives : Array (Option Native)) :
  ((linkFrom (.registered calls) index fs natives).1 = .ok ()
      ∧ ∀ (k : Nat) f, fs[k]? = some f → f.isNative → f.Provided calls)
    ∨ ∃ e k f, (linkFrom (.registered calls) index fs natives).1 = .error e ∧ fs[k]? = some f
      ∧ f.isNative ∧ e.About calls f
      ∧ ∀ (j : Nat) g, j < k → fs[j]? = some g → g.isNative → g.Provided calls
  := by
  induction fs generalizing index natives with
  | nil =>
    refine .inl ⟨rfl, ?_⟩
    intro k f listed
    cases listed
  | cons f rest ih =>
    -- If the first function is in order, all depends on the others.
    have later {natives' : Array (Option Native)} (provided : f.isNative → f.Provided calls)
        (same : linkFrom (.registered calls) index (f :: rest) natives
          = linkFrom (.registered calls) (index + 1) rest natives') :
        ((linkFrom (.registered calls) index (f :: rest) natives).1 = .ok ()
          ∧ ∀ (k : Nat) g, (f :: rest)[k]? = some g → g.isNative → g.Provided calls)
        ∨ ∃ e k g, (linkFrom (.registered calls) index (f :: rest) natives).1 = .error e
          ∧ (f :: rest)[k]? = some g ∧ g.isNative ∧ e.About calls g
          ∧ ∀ (j : Nat) g, j < k → (f :: rest)[j]? = some g → g.isNative → g.Provided calls := by
      rw [same]
      rcases ih (index + 1) natives' with
        ⟨ended, others⟩ | ⟨e, k, g, ended, listed, noCode, about, before⟩
      · refine .inl ⟨ended, ?_⟩
        rintro (_ | k) g listed noCode
        · cases listed
          exact provided noCode
        · exact others k g listed noCode
      · refine .inr ⟨e, k + 1, g, ended, listed, noCode, about, ?_⟩
        rintro (_ | j) g less listed noCode
        · cases listed
          exact provided noCode
        · exact before j g (Nat.lt_of_succ_lt_succ less) listed noCode
    rcases linkFrom_cons calls index f rest natives with
      ⟨code, same⟩ | ⟨noCode, native, found, arity, same⟩ | ⟨noCode, e, about, same⟩
    · exact later (fun noCode => by rw [code] at noCode; cases noCode) same
    · exact later (fun _ => ⟨native, found, arity⟩) same
    · exact .inr ⟨e, 0, f, by rw [same], rfl, noCode, about, fun j _ impossible =>
        absurd impossible (Nat.not_lt_zero j)⟩

theorem size_linkFrom (registry : Registry) (index : Nat) (fs : List Function)
    (natives : Array (Option Native)) :
  (linkFrom registry index fs natives).2.size = natives.size
  := by
  induction fs generalizing index natives with
  | nil => rfl
  | cons f rest ih =>
    unfold linkFrom
    split
    · split
      · rfl
      · split
        · rfl
        · rw [ih, Array.size_setIfInBounds]
    · exact ih _ _

/-- Functions before the first one that is linked keep what they are bound to. -/
theorem getElem?_linkFrom_of_lt (registry : Registry) (fs : List Function) {k : Nat}
    (before : k < index) :
  (linkFrom registry index fs natives).2[k]? = natives[k]?
  := by
  induction fs generalizing index natives with
  | nil => rfl
  | cons f rest ih =>
    unfold linkFrom
    split
    · split
      · rfl
      · split
        · rfl
        · rw [ih (Nat.lt_succ_of_lt before), Array.getElem?_setIfInBounds_ne (by omega)]
    · exact ih (Nat.lt_succ_of_lt before)

/-- When linking ends well, every native function is bound to what is registered for it. -/
theorem getElem?_linkFrom_of_ok (room : index + fs.length ≤ natives.size)
    (ended : (linkFrom (.registered calls) index fs natives).1 = .ok ()) {k : Nat}
    (listed : fs[k]? = some f) (noCode : f.isNative) :
  ∃ native, lastRegistered? calls f.package f.name = some native
    ∧ (linkFrom (.registered calls) index fs natives).2[index + k]? = some (some native)
  := by
  induction fs generalizing index natives k with
  | nil => cases listed
  | cons g rest ih =>
    rw [List.length_cons] at room
    rcases linkFrom_cons calls index g rest natives with
      ⟨code, same⟩ | ⟨-, native, found, -, same⟩ | ⟨-, e, -, same⟩
    · rw [same] at ended ⊢
      cases k with
      | zero =>
        cases listed
        rw [code] at noCode
        cases noCode
      | succ k =>
        rw [Nat.add_comm k, ← Nat.add_assoc]
        exact ih (by omega) ended listed
    · rw [same] at ended ⊢
      cases k with
      | zero =>
        cases listed
        refine ⟨native, found, ?_⟩
        rw [Nat.add_zero index, getElem?_linkFrom_of_lt _ _ (Nat.lt_add_one index),
          Array.getElem?_setIfInBounds_self_of_lt (by omega)]
      | succ k =>
        rw [Nat.add_comm k, ← Nat.add_assoc]
        exact ih (by rw [Array.size_setIfInBounds]; omega) ended listed
    · rw [same] at ended
      cases ended

/-! ### At all times -/

/-- There is a place for the procedure of every function of the executable, and each procedure that
is bound has the package, the name and the number of arguments of a native function. -/
structure WellBound (exe : Executable) (m : Machine) : Prop where
  exe_eq : m.exe = exe
  size_eq : m.natives.size = exe.functions.size
  bound : ∀ (index : Nat) native, (m.natives[index]?).join = some native →
    ∃ f, exe.functions[index]? = some f ∧ f.isNative ∧ native.package = f.package
      ∧ native.name = f.name ∧ native.arity = f.params.length

variable {exe : Executable} {m m' : Machine}

theorem wellBound_of_new? {config : Config} {clock : Int64}
    (made : new? exe config clock = some m) :
  m.WellBound exe
  := by
  obtain ⟨stack, -, rfl⟩ := Option.map_eq_some_iff.1 made
  refine ⟨rfl, Array.size_replicate, ?_⟩
  intro index native bound
  rw [natives_ofStack] at bound
  cases bound

theorem WellBound.of_same (wellBound : m.WellBound exe) (same : SameProgram m m') :
  m'.WellBound exe
  := by
  obtain ⟨exe_eq, size_eq, bound⟩ := wellBound
  rw [← same.natives] at size_eq bound
  exact ⟨same.exe.trans exe_eq, size_eq, bound⟩

/-- Whether or not linking ends well, what it has bound is suitable. -/
theorem WellBound.link (wellBound : m.WellBound exe) (registry : Registry) :
  (link registry m).2.WellBound exe
  := by
  obtain ⟨rfl, size_eq, bound⟩ := wellBound
  refine ⟨rfl, (size_linkFrom _ _ _ _).trans size_eq, ?_⟩
  refine linkFrom_bound _ bound ?_
  intro k f native listed noCode found arity
  rw [Array.getElem?_toList] at listed
  have key := List.find?_some found
  rw [decide_eq_true_eq] at key
  exact ⟨f, by rwa [Nat.zero_add], noCode, key.1, key.2, arity⟩

theorem WellBound.of_evolves {links : Registry → Prop} {Kept : Heap → Prop}
    (wellBound : m.WellBound exe) (evolves : Evolves links Kept m m') :
  m'.WellBound exe
  := evolves.invariant wellBound (fun _ _ same wellBound => wellBound.of_same same)
    fun _ registry _ wellBound => wellBound.link registry

end Machine

/-! ### The arguments of a procedure -/

/-- As many values are read as are asked for. -/
theorem Stack.length_of_top {count : Nat} {s s' : Stack} {args : List Value}
    (read : Stack.top count s = .ok args s') :
  args.length = count
  := by
  unfold Stack.top at read
  split at read
  · next enough =>
      injection read with read
      rw [← read, List.length_map, Array.length_toList, Array.size_extract]
      omega
  · cases read

/-- Change the state in which an action ends. -/
def endingIn {ε σ α : Type} (change : σ → σ) : EStateM.Result ε σ α → EStateM.Result ε σ α
  | .ok a s => .ok a (change s)
  | .error e s => .error e (change s)

namespace Machine

/-- The machine with another procedure bound to a function. -/
def rebind (index : Nat) (native : Native) (m : Machine) : Machine :=
  { m with natives := m.natives.setIfInBounds index (some native) }

@[simp] theorem rebind_stack (index : Nat) (native : Native) (m : Machine) :
  (m.rebind index native).stack = m.stack
  := rfl

@[simp] theorem rebind_host (index : Nat) (native : Native) (m : Machine) :
  (m.rebind index native).host = m.host
  := rfl

/-- An action that has nothing to do with what functions are bound to. -/
def Unbound {α : Type} (action : MachineM α) : Prop :=
  ∀ index native m, action (m.rebind index native) = endingIn (rebind index native) (action m)

theorem unbound_onStack {α : Type} (action : StackM α) :
  Unbound (onStack action)
  := by
  intro index native m
  rw [onStack_eq, onStack_eq, rebind_stack]
  cases action m.stack with
  | ok a stack => rfl
  | error trap stack => rfl

theorem unbound_onHost {α : Type} (action : EStateM Trap Host α) :
  Unbound (onHost action)
  := by
  intro index native m
  rw [onHost_eq, onHost_eq, rebind_host]
  cases action m.host with
  | ok a host => rfl
  | error trap host => rfl

theorem Unbound.bind {α β : Type} {action : MachineM α} {next : α → MachineM β}
    (first : Unbound action) (second : ∀ a, Unbound (next a)) :
  Unbound (action >>= next)
  := by
  intro index native m
  cases ran : action m with
  | ok a m' =>
    have ran' := first index native m
    rw [ran] at ran'
    rw [bind_of_ok ran, bind_of_ok ran', second a index native m']
  | error trap m' =>
    have ran' := first index native m
    rw [ran] at ran'
    rw [bind_of_error ran, bind_of_error ran']
    rfl

/-- A call runs a procedure only on as many arguments as the procedure says: another one that does
the same on all of these cannot be told from it. -/
theorem callNative_rebind {index : Nat} {native other : Native} {m : Machine} (f : Function)
    (bound : (m.natives[index]?).join = some native) (arity : other.arity = native.arity)
    (agrees : ∀ args, args.length = native.arity → other.run args = native.run args) :
  callNative index f (m.rebind index other) = endingIn (rebind index other) (callNative index f m)
  := by
  have inside : index < m.natives.size := by
    by_contra outside
    rw [Array.getElem?_eq_none (Nat.le_of_not_lt outside)] at bound
    cases bound
  have rebound : ((m.rebind index other).natives[index]?).join = some other := by
    change ((m.natives.setIfInBounds index (some other))[index]?).join = some other
    rw [Array.getElem?_setIfInBounds_self_of_lt inside]
    rfl
  rw [callNative, bind_of_ok (get_eq m), bind_of_ok (get_eq (m.rebind index other)), bound, rebound]
  dsimp only
  rw [arity]
  have read' := unbound_onStack (Stack.top native.arity) index other m
  cases read : onStack (Stack.top native.arity) m with
  | ok args m' =>
    obtain ⟨s, onTop, -⟩ := onStack_eq_ok read
    have same := agrees args (Stack.length_of_top onTop)
    rw [read] at read'
    rw [bind_of_ok read, bind_of_ok read', same]
    have rest : Unbound (do
        let result ← onHost (native.run args)
        onStack (Stack.shrink native.arity)
        push result) :=
      (unbound_onHost _).bind fun _ => (unbound_onStack _).bind fun _ => unbound_onStack _
    exact rest index other m'
  | error trap m' =>
    rw [read] at read'
    rw [bind_of_error read, bind_of_error read']
    rfl

end Machine

namespace Machine

variable {exe : Executable} {m : Machine}

/-- Whatever a machine has been linked with before, linking it with a registry succeeds exactly if
for every native function something suitable is registered, and then every native function is bound
to that. Otherwise the error is about the first function that lacks something. At all times every
procedure that is bound has the package, the name and the number of arguments of its function, and a
call runs it only on as many arguments as the function has parameters: another procedure that does
the same on all of these cannot be told from it. -/
theorem link_after_history {config : Config} {clock : Int64} {start : Machine}
    (made : new? exe config clock = some start)
    (evolves : Evolves (fun _ => True) (fun _ => True) start m) (calls : List Native) :
  ((link (.registered calls) m).1 = .ok ()
      ↔ ∀ (index : Nat) f, exe.functions[index]? = some f → f.isNative → f.Provided calls)
    ∧ ((link (.registered calls) m).1 = .ok () →
        ∀ (index : Nat) f, exe.functions[index]? = some f → f.isNative →
          ∃ native, lastRegistered? calls f.package f.name = some native
            ∧ (link (.registered calls) m).2.natives[index]? = some (some native))
    ∧ (∀ e, (link (.registered calls) m).1 = .error e →
        ∃ index f, exe.functions[index]? = some f ∧ f.isNative ∧ e.About calls f
          ∧ ¬f.Provided calls
          ∧ ∀ (k : Nat) g, k < index → exe.functions[k]? = some g → g.isNative → g.Provided calls)
    ∧ ∀ (index : Nat) native, (m.natives[index]?).join = some native →
        ∃ f, exe.functions[index]? = some f ∧ f.isNative ∧ native.package = f.package
          ∧ native.name = f.name ∧ native.arity = f.params.length
          ∧ ∀ (other : Native) (m' : Machine), m'.natives = m.natives →
            other.arity = native.arity →
            (∀ args, args.length = f.params.length → other.run args = native.run args) →
            callNative index f (m'.rebind index other)
              = endingIn (rebind index other) (callNative index f m')
  := by
  obtain ⟨rfl, size_eq, bound⟩ := (wellBound_of_new? made).of_evolves evolves
  have outcome := linkFrom_fst calls 0 m.exe.functions.toList m.natives
  simp only [Array.getElem?_toList] at outcome
  refine ⟨?_, ?_, ?_, ?_⟩
  · rcases outcome with ⟨ended, provided⟩ | ⟨e, k, f, ended, listed, noCode, about, -⟩
    · exact ⟨fun _ => provided, fun _ => ended⟩
    · constructor
      · intro impossible
        rw [show (link (.registered calls) m).1 = .error e from ended] at impossible
        cases impossible
      · exact fun provided => absurd (provided k f listed noCode) about.not_provided
  · intro ended index f listed noCode
    rw [← Array.getElem?_toList] at listed
    obtain ⟨native, found, here⟩ := getElem?_linkFrom_of_ok
      (by rw [Nat.zero_add, Array.length_toList, size_eq]) ended listed noCode
    rw [Nat.zero_add] at here
    exact ⟨native, found, here⟩
  · intro e failed
    rcases outcome with ⟨ended, -⟩ | ⟨e', k, f, ended, listed, noCode, about, before⟩
    · rw [show (link (.registered calls) m).1 = .ok () from ended] at failed
      cases failed
    · rw [show (link (.registered calls) m).1 = .error e' from ended] at failed
      cases failed
      exact ⟨k, f, listed, noCode, about, about.not_provided, before⟩
  · intro index native isBound
    obtain ⟨f, listed, noCode, package, name, arity⟩ := bound index native isBound
    refine ⟨f, listed, noCode, package, name, arity, ?_⟩
    intro other m' same sameArity agrees
    rw [← arity] at agrees
    rw [← same] at isBound
    exact callNative_rebind f isBound sameArity agrees

/-- Two native functions, the first with a parameter. -/
def rootsExecutable : Executable where
  functions := #[
    { name := "sqrt", package := "fourg.lang", class_ := none, returnType := .double,
      params := [⟨"x", .double⟩], locals := [], code := none },
    { name := "now_millis", package := "fourg.lang", class_ := none, returnType := .int,
      params := [], locals := [], code := none }]

def rootsConfig : Config := { initialStackSize := 4, maxStackSize := 8 }

def rootsMachine : Machine := ofStack rootsExecutable rootsConfig 0 (Stack.new 4 8)

/-- The first function stays bound when the second one cannot be, and both are bound after that. -/
theorem link_after_failed_link :
  (link (.registered [.sqrt]) rootsMachine).1 = .error (.nativeNotFound "fourg.lang" "now_millis")
    ∧ (link (.registered [.sqrt]) rootsMachine).2.natives = #[some .sqrt, none]
    ∧ (link (.registered [.sqrt, .nowMillis]) (link (.registered [.sqrt]) rootsMachine).2).1 = .ok ()
  := by
  have made : new? rootsExecutable rootsConfig 0 = some rootsMachine := rfl
  have evolves : Evolves (fun _ => True) (fun _ => True) rootsMachine
      (link (.registered [.sqrt]) rootsMachine).2 := .link .refl trivial
  refine ⟨rfl, rfl, (link_after_history made evolves [.sqrt, .nowMillis]).1.2 ?_⟩
  rintro (_ | _ | index) f listed -
  · cases listed
    exact ⟨.sqrt, rfl, rfl⟩
  · cases listed
    exact ⟨.nowMillis, rfl, rfl⟩
  · cases listed

end Machine

end Bytecode
