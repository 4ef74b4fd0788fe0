import Mathlib
import Bytecode.Proofs.Generate.Loops
import Bytecode.Proofs.Machine.Frames
import Bytecode.Proofs.Semantics.Evaluator
import Bytecode.Proofs.Semantics.Scalar

/-!
# Machines that follow an evaluation

`Setting.Mirrors` relates a machine to the evaluator's store: the cells in use are the frames of
the callers, the variables of the function that runs and the operands that have been computed so
far. `Setting.Follows` says that the run of a machine comes to what an evaluation comes to. It is
put together like the evaluation: step by step, by `Follows.step`, and part by part, by
`Follows.bind`.

The stack of a machine is bounded and the evaluator's is not. So a machine may also exhaust its
stack; `Setting.Exhausts` keeps the reason.
-/

namespace Bytecode

/-! ### Counted runs -/

namespace Machine

variable {m m' m'' : Machine} {k k' : Nat}

/-- So many steps lead from one machine to another. -/
def GoesTo (steps : Nat) (m m' : Machine) : Prop :=
  ∀ fuel, resume (fuel + steps) m = resume fuel m'

/-- The run ends so, in the given machine. -/
def EndsIn (ending : Ending RuntimeError (Option Value)) (m m' : Machine) : Prop :=
  ∃ steps, ∀ fuel, resume (fuel + steps) m = (ending, m')

theorem GoesTo.refl (m : Machine) :
  m.GoesTo 0 m
  := fun _ => rfl

theorem GoesTo.trans (first : m.GoesTo k m') (second : m'.GoesTo k' m'') :
  m.GoesTo (k' + k) m''
  := by
  intro fuel
  rw [← Nat.add_assoc, first, second]

theorem goesTo_of_step (stepped : step m = .ok .running m') :
  m.GoesTo 1 m'
  := by
  intro fuel
  simp only [resume, stepped]

theorem GoesTo.endsIn {ending : Ending RuntimeError (Option Value)} (goes : m.GoesTo k m')
    (ends : m'.EndsIn ending m'') :
  m.EndsIn ending m''
  := by
  obtain ⟨steps, ends⟩ := ends
  refine ⟨steps + k, fun fuel => ?_⟩
  rw [← Nat.add_assoc, goes, ends]

theorem endsIn_of_fault {f : Fault} {e : RuntimeError} (stepped : step m = .error (.error f) m')
    (located : m'.locate f = some e) :
  m.EndsIn (.failed e) m'
  := by
  refine ⟨1, fun fuel => ?_⟩
  simp only [resume, stepped, located]

theorem endsIn_of_crash (stepped : step m = .error .crash m') :
  m.EndsIn .crashed m'
  := by
  refine ⟨1, fun fuel => ?_⟩
  simp only [resume, stepped]

end Machine

/-! ### The cells in use -/

namespace Stack

variable {s s' : Stack} {cs ds : List Cell}

/-- The cells in use are the given ones, the lowest first. -/
structure InUse (cs : List Cell) (s : Stack) : Prop where
  sp_eq : s.sp = cs.length
  fits : s.sp ≤ s.cells.size
  cell : ∀ (k : Nat) (c : Cell), cs[k]? = some c → s.cells[k]? = some c

namespace InUse

theorem holds {vs : List Value} (h : s.InUse (cs ++ vs.map .value)) :
  s.Holds cs.length vs
  where
  sp_eq := by simpa using h.sp_eq
  fits := h.fits
  cell k v found := by
    apply h.cell
    rw [List.getElem?_append_right (by omega), Nat.add_sub_cancel_left, List.getElem?_map, found]
    rfl

/-- The cells below those that are rewritten stay. -/
theorem rewritten {vs : List Value} (h : s.InUse (cs ++ ds))
    (rewritten : s.Rewritten cs.length vs s') :
  s'.InUse (cs ++ vs.map .value)
  where
  sp_eq := by simpa using rewritten.holds.sp_eq
  fits := rewritten.holds.fits
  cell k c found := by
    by_cases inside : k < cs.length
    · rw [List.getElem?_append_left inside] at found
      rw [rewritten.below k inside]
      apply h.cell
      rw [List.getElem?_append_left inside, found]
    · rw [List.getElem?_append_right (by omega), List.getElem?_map] at found
      obtain ⟨v, listed, rfl⟩ := Option.map_eq_some_iff.1 found
      have cell := rewritten.holds.cell _ v listed
      rwa [show cs.length + (k - cs.length) = k by omega] at cell

theorem extended (h : s.InUse cs) (extended : s.Extended ds s') :
  s'.InUse (cs ++ ds)
  where
  sp_eq := by rw [extended.sp_eq, h.sp_eq, List.length_append]
  fits := extended.fits (.inl h.fits)
  cell k c found := by
    have sp := h.sp_eq
    have fits := h.fits
    by_cases inside : k < cs.length
    · rw [List.getElem?_append_left inside] at found
      rw [extended.below k (by omega) (by omega), h.cell k c found]
    · rw [List.getElem?_append_right (by omega)] at found
      have cell := extended.cell _ c found
      rwa [show s.sp + (k - cs.length) = k by omega] at cell

/-- The lower ones of the cells are left when the stack pointer is set to their number. -/
theorem truncated (h : s.InUse (cs ++ ds)) :
  { s with sp := cs.length }.InUse cs
  where
  sp_eq := rfl
  fits := by
    have sp := h.sp_eq
    have fits := h.fits
    rw [List.length_append] at sp
    change cs.length ≤ s.cells.size
    omega
  cell k c found := by
    apply h.cell
    rw [List.getElem?_append_left (List.getElem?_eq_some_iff.1 found).1, found]

theorem lowered (h : s.InUse (cs ++ ds)) :
  (s.lowered ds.length).InUse cs
  := by
  have sp := h.sp_eq
  rw [List.length_append] at sp
  have same : s.lowered ds.length = { s with sp := cs.length } := by
    unfold Stack.lowered
    congr
    omega
  rw [same]
  exact h.truncated

theorem set (h : s.InUse cs) (index : Nat) (c : Cell) :
  { s with cells := s.cells.setIfInBounds index c }.InUse (cs.set index c)
  where
  sp_eq := by simpa using h.sp_eq
  fits := by simpa using h.fits
  cell k d found := by
    have sp := h.sp_eq
    have fits := h.fits
    rw [List.getElem?_set] at found
    rw [Array.getElem?_setIfInBounds]
    split at found
    · next same =>
        rw [if_pos same]
        split at found
        · rw [if_pos (by omega), found]
        · cases found
    · next other =>
        rw [if_neg other]
        exact h.cell k d found

end InUse

/-- A trap because the stack could not have so many cells. -/
structure Refuses (limit required : Nat) (trap : Trap) : Prop where
  kind : trap = .error (.stackOverflow limit) ∨ trap = .crash
  cause : limit < required ∨ unaddressable ≤ limit

theorem refuses_of_cause {needed : Nat} {trap : Trap}
    (cause : trap = .error (.stackOverflow s.limit) ∧ s.limit < s.sp + needed
      ∨ trap = .crash ∧ s.CannotGrow needed) :
  Refuses s.limit (s.sp + needed) trap
  := by
  have addressable : unaddressable = 2 ^ 59 := rfl
  rcases cause with ⟨overflow, full⟩ | ⟨crash, large | ⟨-, large⟩⟩
  · exact ⟨.inl overflow, .inl full⟩
  · exact ⟨.inr crash, by omega⟩
  · refine ⟨.inr crash, .inr ?_⟩
    unfold grownSize at large
    omega

/-- A push adds a cell, or the stack cannot have one more. -/
theorem InUse.push (h : s.InUse cs) (v : Value) :
  (∃ s', Stack.push v s = .ok () s' ∧ s'.InUse (cs ++ [.value v]) ∧ s'.limit = s.limit)
    ∨ ∃ trap, Stack.push v s = .error trap s ∧ Refuses s.limit (cs.length + 1) trap
  := by
  cases run : Stack.push v s with
  | ok _ s' =>
    have pushed := pushCell_eq_ok run
    exact .inl ⟨s', rfl, h.extended pushed.extended, pushed.limit_eq⟩
  | error trap s' =>
    obtain ⟨rfl, -, cause⟩ := pushCell_eq_error h.fits run
    refine .inr ⟨trap, rfl, ?_⟩
    rw [← h.sp_eq]
    exact refuses_of_cause cause

end Stack

/-! ### Frames -/

namespace Program

/-- The name under which faults are reported. -/
def nameOf (p : Program) : Option Nat → String
  | none => "<top level>"
  | some index => ((p.functions[index]?).map fun f => qualify f.package f.name).getD ""

/-- The cells of a frame below its operands. -/
def frameSize (p : Program) : Option Nat → Nat
  | none => 0
  | some index => (p.frame (some index)).1 + Frame.recordSize + (p.frame (some index)).2

/-- The cells that a frame needs at most, one that is being pushed included. -/
def width (p : Program) : Nat :=
  ((none :: (List.range p.functions.length).map some).flatMap fun current =>
    (p.points current).map fun point => p.frameSize current + point.depth + 1).max?.getD 0

theorem le_width {p : Program} {current : Option Nat} {point : Point}
    (listed : point ∈ p.points current) :
  p.frameSize current + point.depth + 1 ≤ p.width
  := by
  apply List.le_max?_getD_of_mem
  refine List.mem_flatMap.2 ⟨current, ?_, List.mem_map.2 ⟨point, listed, rfl⟩⟩
  cases current with
  | none => exact List.mem_cons_self
  | some index =>
    apply List.mem_cons_of_mem
    apply List.mem_map.2
    refine ⟨index, List.mem_range.2 ?_, rfl⟩
    by_contra outside
    have missing : p.functions[index]? = none := List.getElem?_eq_none (by omega)
    simp [points, piece, missing, Piece.points] at listed

end Program

/-- A number in a cell. -/
def word (v : Int64) : Cell := .value (.ofInt v)

theorem map_value_ofInt (vs : List Int64) :
  (vs.map Value.ofInt).map Cell.value = vs.map word
  := List.map_map

/-- The top level, or a call of a function: the code that goes on when it returns, the place of
the call in that code and the base of its frame, and the cells below the frame of the call. -/
inductive Activation where
  | topLevel
  | call (index : Nat) (caller : Option Nat) (pc base : Nat) (below : List Cell)

namespace Activation

def current : Activation → Option Nat
  | .topLevel => none
  | .call index _ _ _ _ => some index

def base : Activation → Nat
  | .topLevel => 0
  | .call _ _ _ _ below => below.length

/-- The cells below the operands: those of the callers, the parameters, the call record and the
locals. -/
def cells (p : Program) (locals : List Int64) : Activation → List Cell
  | .topLevel => []
  | .call index caller pc base below =>
    below ++ ((locals.take (p.frame (some index)).1).map word
      ++ .call ⟨Machine.callerOf caller, pc, base⟩
        :: (locals.drop (p.frame (some index)).1).map word)

variable {p : Program} {locals : List Int64}

theorem length_cells (a : Activation)
    (count : locals.length = (p.frame a.current).1 + (p.frame a.current).2) :
  (a.cells p locals).length = a.base + p.frameSize a.current
  := by
  cases a with
  | topLevel => rfl
  | call index caller pc base below =>
    simp only [current] at count
    simp only [cells, Activation.base, Program.frameSize, current, List.length_append,
      List.length_map, List.length_take, List.length_cons, List.length_drop, Frame.recordSize]
    omega

/-- The call record is above the parameters. -/
theorem getElem?_record {index : Nat} (caller : Option Nat) (pc base : Nat) (below : List Cell)
    (count : (p.frame (some index)).1 ≤ locals.length) :
  ((Activation.call index caller pc base below).cells p locals)[below.length
      + (p.frame (some index)).1]?
    = some (.call ⟨Machine.callerOf caller, pc, base⟩)
  := by
  rw [cells, List.getElem?_append_right (by omega), Nat.add_sub_cancel_left,
    List.getElem?_append_right (by rw [List.length_map, List.length_take]; omega)]
  simp [count]

/-- A variable of the function is in its slot. -/
theorem getElem?_cells {index : Nat} {a : Activation} (isCall : a.current = some index) {slot : Nat}
    {v : Int64} (found : locals[slot]? = some v) :
  (a.cells p locals)[a.base + Frame.slotOffset (p.frame a.current).1 slot]? = some (word v)
  := by
  cases a with
  | topLevel => cases isCall
  | call index caller pc base below =>
    have inside := (List.getElem?_eq_some_iff.1 found).1
    rw [cells, List.getElem?_append_right (by simp [Activation.base])]
    simp only [Activation.base, Nat.add_sub_cancel_left, current]
    generalize (p.frame (some index)).1 = params
    unfold Frame.slotOffset Frame.recordSize
    split
    · rw [List.getElem?_append_left (by simp; omega)]
      simp_all
    · rw [List.getElem?_append_right (by simp; omega)]
      rw [show slot + 1 - ((locals.take params).map word).length = slot - params + 1 by
        simp; omega]
      simp only [List.getElem?_cons_succ, List.getElem?_map, List.getElem?_drop]
      rw [Nat.add_sub_cancel' (by omega), found]
      rfl

/-- Writing to the slot of a variable of the function. -/
theorem set_cells {index : Nat} {a : Activation} (isCall : a.current = some index) {slot : Nat}
    (inside : slot < locals.length) (v : Int64) :
  (a.cells p locals).set (a.base + Frame.slotOffset (p.frame a.current).1 slot) (word v)
    = a.cells p (locals.set slot v)
  := by
  cases a with
  | topLevel => cases isCall
  | call index caller pc base below =>
    simp only [cells, Activation.base, current]
    generalize (p.frame (some index)).1 = params
    rw [List.set_append_right _ _ (by omega), Nat.add_sub_cancel_left]
    congr 1
    unfold Frame.slotOffset Frame.recordSize
    split
    · next inParams =>
        rw [List.set_append_left _ _ (by simp; omega), List.take_set, List.drop_set_of_lt inParams,
          List.map_set]
    · next beyond =>
        rw [List.set_append_right _ _ (by simp; omega)]
        rw [show slot + 1 - ((locals.take params).map word).length = slot - params + 1 by
          simp; omega]
        rw [List.set_cons_succ, List.drop_set, if_neg beyond, List.map_set,
          List.take_set_of_le (by omega)]

end Activation

/-! ### Settings -/

/-- What stays the same throughout a run of a program of whole numbers: what the machine runs,
its host, on whose heap there is nothing to collect, the cells that its stack may have, and the
cells that are known to suffice. -/
structure Setting where
  program : Program
  exe : Executable
  host : Host
  limit : Nat
  bound : Nat
  compiled : CompiledFrom program exe
  inLoops : program.JumpsInLoops
  scalar : program.isScalar
  idle : host.heap.needsCollection = false

/-- The values of global variables as a machine has them. -/
def Store.words (store : Store) : Array Value := (store.globals.map Value.ofInt).toArray

namespace Setting

variable {s : Setting} {a : Activation} {pc n k : Nat} {vs : List Int64} {store : Store}
  {m m' : Machine} {α β : Type}

/-- The machine is at a place of an activation, with the variables of the store and the given
operands. -/
structure Mirrors (s : Setting) (a : Activation) (pc : Nat) (vs : List Int64) (store : Store)
    (m : Machine) : Prop where
  exe : m.exe = s.exe
  host : m.host = s.host
  limit : m.stack.limit = s.limit
  current : m.registers.current = a.current
  base : m.registers.base = a.base
  pc : m.registers.pc = pc
  stack : m.stack.InUse (a.cells s.program store.locals ++ vs.map word)
  globals : m.globals = store.words
  globalCount : store.globals.length = s.program.globals.length
  localCount : store.locals.length
    = (s.program.frame a.current).1 + (s.program.frame a.current).2

/-- The run of the machine ends because its stack cannot be extended, to no more cells than are
known to suffice. -/
def Exhausts (s : Setting) (m : Machine) : Prop :=
  (s.limit < s.bound ∨ Stack.unaddressable ≤ s.limit)
    ∧ ∃ ending m', m.EndsIn ending m'
      ∧ (ending = .crashed ∨ ∃ function line,
        ending = .failed ⟨.stackOverflow s.limit, function, line⟩)

theorem Exhausts.of_goesTo (goes : m.GoesTo k m') (exhausts : s.Exhausts m') :
  s.Exhausts m
  := by
  obtain ⟨cause, ending, last, ends, kind⟩ := exhausts
  exact ⟨cause, ending, last, goes.endsIn ends, kind⟩

/-- The machine comes to what an evaluation has come to. Where that has timed out, the machine
runs for so many steps. -/
def Meets (s : Setting) (n : Nat) (m : Machine) (Q : α → Store → Machine → Prop) :
    EStateM.Result Halt Store α → Prop
  | .ok a store => ∃ k m', m.GoesTo k m' ∧ Q a store m'
  | .error (.divisionByZero locus) store => ∃ m',
    m.EndsIn (.failed ⟨.divisionByZero, s.program.nameOf locus.current, locus.line⟩) m'
      ∧ m'.globals = store.words
  | .error .timeout _ => ∃ k m', m.GoesTo k m' ∧ n ≤ k

/-- The machine comes to what an evaluation has come to, unless it exhausts its stack. -/
def Follows (s : Setting) (n : Nat) (m : Machine) (Q : α → Store → Machine → Prop)
    (r : EStateM.Result Halt Store α) : Prop :=
  s.Exhausts m ∨ s.Meets n m Q r

/-- The next step leads to a machine as described, unless the stack is exhausted. -/
def Steps (s : Setting) (m : Machine) (P : Machine → Prop) : Prop :=
  s.Exhausts m ∨ ∃ m', Machine.step m = .ok .running m' ∧ P m'

namespace Follows

variable {Q Q' : α → Store → Machine → Prop} {R : β → Store → Machine → Prop}
  {r : EStateM.Result Halt Store α}

theorem done {x : α} (holds : Q x store m) :
  s.Follows n m Q (.ok x store)
  := .inr ⟨0, m, .refl m, holds⟩

theorem timeout (store : Store) :
  s.Follows 0 m Q (.error .timeout store)
  := .inr ⟨0, m, .refl m, Nat.le_refl _⟩

/-- The steps before are counted. -/
theorem after (goes : m.GoesTo k m') (follows : s.Follows n m' Q r) :
  s.Follows (n + k) m Q r
  := by
  rcases follows with exhausts | meets
  · exact .inl (.of_goesTo goes exhausts)
  · right
    cases r with
    | ok x store =>
      obtain ⟨k', m'', goes', holds⟩ := meets
      exact ⟨k' + k, m'', goes.trans goes', holds⟩
    | error halt store =>
      cases halt with
      | divisionByZero locus =>
        obtain ⟨m'', ends, globals⟩ := meets
        exact ⟨m'', goes.endsIn ends, globals⟩
      | timeout =>
        obtain ⟨k', m'', goes', enough⟩ := meets
        exact ⟨k' + k, m'', goes.trans goes', by omega⟩

theorem mono {n' : Nat} (follows : s.Follows n m Q r) (fewer : n' ≤ n)
    (weaker : ∀ x store m, Q x store m → Q' x store m) :
  s.Follows n' m Q' r
  := by
  rcases follows with exhausts | meets
  · exact .inl exhausts
  · right
    cases r with
    | ok x store =>
      obtain ⟨k, m', goes, holds⟩ := meets
      exact ⟨k, m', goes, weaker _ _ _ holds⟩
    | error halt store =>
      cases halt with
      | divisionByZero locus => exact meets
      | timeout =>
        obtain ⟨k, m', goes, enough⟩ := meets
        exact ⟨k, m', goes, by omega⟩

/-- What a machine comes to belongs to the result of the evaluation. -/
theorem known (follows : s.Follows n m Q r) :
  s.Follows n m (fun x store m' => r = .ok x store ∧ Q x store m') r
  := by
  rcases follows with exhausts | meets
  · exact .inl exhausts
  · right
    cases r with
    | ok x store =>
      obtain ⟨k, m', goes, holds⟩ := meets
      exact ⟨k, m', goes, rfl, holds⟩
    | error halt store =>
      cases halt with
      | divisionByZero locus | timeout => exact meets

/-- A machine follows two evaluations one after the other. -/
theorem bind {x : Eval α} {f : α → Eval β} (first : s.Follows n m Q (x store))
    (second : ∀ v store' m', Q v store' m' → s.Follows n m' R (f v store')) :
  s.Follows n m R ((x >>= f) store)
  := by
  rcases first with exhausts | meets
  · exact .inl exhausts
  · cases run : x store with
    | ok v store' =>
        rw [run] at meets
        rw [bind_of_ok run]
        obtain ⟨k, m', goes, holds⟩ := meets
        exact ((second v store' m' holds).after goes).mono (Nat.le_add_right _ _) fun _ _ _ => id
    | error halt store' =>
        rw [run] at meets
        rw [bind_of_error run]
        cases halt with
        | divisionByZero locus | timeout => exact .inr meets

/-- A machine that follows an evaluation goes on from what that comes to. -/
theorem extend (follows : s.Follows n m Q r)
    (on : ∀ x store m, Q x store m → s.Follows n m Q' (.ok x store)) :
  s.Follows n m Q' r
  := by
  let x : Eval α := fun _ => r
  have whole : s.Follows n m Q' ((x >>= pure) ⟨[], []⟩) := bind follows on
  rw [bind_pure] at whole
  exact whole

/-- The next step is counted. -/
theorem counted {P : Machine → Prop} (steps : s.Steps m P)
    (follows : ∀ m', P m' → s.Follows n m' Q r) :
  s.Follows (n + 1) m Q r
  := by
  rcases steps with exhausts | ⟨m', stepped, holds⟩
  · exact .inl exhausts
  · exact (follows m' holds).after (Machine.goesTo_of_step stepped)

theorem step {P : Machine → Prop} (steps : s.Steps m P)
    (follows : ∀ m', P m' → s.Follows n m' Q r) :
  s.Follows n m Q r
  := (counted steps follows).mono (Nat.le_succ n) fun _ _ _ => id

end Follows

end Setting

end Bytecode
