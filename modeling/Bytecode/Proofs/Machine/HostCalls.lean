import Mathlib
import Bytecode.Proofs.Machine.FaultLocations
import Bytecode.Proofs.Machine.Integrity
import Bytecode.Proofs.Machine.StackLimit

/-!
# Calls from the host

When the host calls a function, the cells in use lie below the frames of the call. No instruction of
the call writes there: what an instruction does not depend on it does not change either, so that
`Machine.Confined` says what every instruction leaves alone, however it ends. When the call is over,
the registers and the stack pointer are set back, and the machine is as the host has left it.
-/

namespace Bytecode

namespace Machine

variable {p : Program} {exe : Executable} {entry : Nat} {m m' : Machine}
variable {args : List Value} {k index : Nat}

/-! ### Cells that are left alone -/

/-- The patch that puts into a cell what it contains. -/
def ownCell (k : Nat) (m : Machine) : Nat → Option Cell :=
  fun j => if j = k then m.stack.cells[k]? else none

theorem ownCell_ne {j : Nat} (other : j ≠ k) (m : Machine) :
  ownCell k m j = none
  := if_neg other

theorem patched_ownCell (k : Nat) (m : Machine) :
  m.patched (ownCell k m) = m
  := by
  have cells : (m.stack.patched (ownCell k m)).cells = m.stack.cells := by
    apply Array.ext_getElem?
    intro j
    rw [Stack.getElem?_patched]
    by_cases here : j = k
    · subst here
      rw [ownCell, if_pos rfl]
      cases m.stack.cells[j]? with
      | none => rfl
      | some cell => rfl
    · rw [ownCell_ne here]
      cases m.stack.cells[j]? with
      | none => rfl
      | some cell => rfl
  unfold patched
  rw [show m.stack.patched (ownCell k m) = m.stack from
    congrArg (fun cells => { m.stack with cells }) cells]

/-- An action that does the same whatever a cell contains leaves the cell alone. -/
theorem cell_of_patched {α : Type} {x : MachineM α} (inside : k < m.stack.cells.size)
    (size_le : m.stack.cells.size ≤ (stateOf (x m)).stack.cells.size)
    (commutes : x (m.patched (ownCell k m)) = onState (patched (ownCell k m)) (x m)) :
  (stateOf (x m)).stack.cells[k]? = m.stack.cells[k]?
  := by
  rw [patched_ownCell] at commutes
  have same : (stateOf (x m)).stack = (stateOf (x m)).stack.patched (ownCell k m) := by
    cases ran : x m with
    | ok a m₁ | error trap m₁ =>
      rw [ran] at commutes
      exact congrArg (fun r => (stateOf r).stack) commutes
  rw [same, Stack.getElem?_patched, ownCell, if_pos rfl, Array.getElem?_eq_getElem inside,
    Array.getElem?_eq_getElem (by omega)]
  rfl

/-! ### Instructions and runs -/

/-- The cells below a place are the same. -/
def SameBelow (entry : Nat) (m m' : Machine) : Prop :=
  ∀ k, k < entry → m'.stack.cells[k]? = m.stack.cells[k]?

theorem SameBelow.trans {m'' : Machine} (first : SameBelow entry m m')
    (second : SameBelow entry m' m'') :
  SameBelow entry m m''
  := fun k below => (second k below).trans (first k below)

/-- What an instruction addresses is in its frame. -/
theorem base_le_of_addressed {i : Instruction} (listed : k ∈ i.addressed m) :
  m.registers.base ≤ k
  := by
  unfold Instruction.addressed at listed
  split at listed
  · rw [List.mem_singleton.1 listed]
    exact Nat.le_add_right _ _
  · rw [List.mem_singleton.1 listed]
    exact Nat.le_add_right _ _
  · rcases List.mem_cons.1 listed with rfl | record
    · exact Nat.le_refl _
    · rw [List.mem_singleton.1 record]
      exact Nat.le_add_right _ _
  · cases listed

/-- However an instruction ends, it leaves the cells below the frames of its run alone. -/
theorem Framed.sameBelow_execute {i : Instruction} (framed : m.Framed p entry)
    (confined : Confined i (m.advanced i)) :
  SameBelow entry m (stateOf (Machine.execute i (m.advanced i)))
  := by
  intro k below
  have base : k < m.registers.base := Nat.lt_of_lt_of_le below framed.backed.entry_le
  have operands := m.base_le_operandBase
  obtain ⟨vs, holds, -⟩ := framed.operands
  have le := holds.le_sp
  have fits := holds.fits
  have inside : k < m.stack.cells.size := by omega
  have size_le := (KeepsLimit.law.execute i (m.advanced i)).size_le
  have spared : i.Spared (m.advanced i) (ownCell k (m.advanced i)) := by
    intro j touched
    obtain rfl : j = k := by
      by_contra other
      exact touched (ownCell_ne other _)
    refine ⟨Nat.lt_of_lt_of_le base operands, fun listed => ?_⟩
    exact absurd (base_le_of_addressed listed) (Nat.not_le.2 base)
  exact cell_of_patched (m := m.advanced i) inside size_le (confined.untouched _ spared)

theorem Framed.sameBelow_step (framed : m.Framed p entry) (compiled : CompiledFrom p m.exe)
    (inRange : p.SlotsInRange) (fits : m.CallFits p) :
  SameBelow entry m (stateOf (Machine.step m))
  := by
  rcases stateOf_step m with same | ⟨m₁, i, due, fetched, same⟩
  · obtain ⟨host, collected⟩ := stateOf_collectIfDue m
    rw [same, collected]
    exact fun _ _ => rfl
  · obtain ⟨host, rfl⟩ := eq_of_collectIfDue due
    have framed' := framed.hosted host
    obtain ⟨point, vs, here, pc⟩ := framed'.at_fetched compiled fetched
    rw [same]
    exact framed'.sameBelow_execute (here.confined framed' compiled inRange fun call =>
      fits point here.listed pc (here.op ▸ call))

theorem Framed.sameBelow_of_reaches {start : Machine} (framed : start.Framed p entry)
    (compiled : CompiledFrom p start.exe) (inRange : p.SlotsInRange)
    (reaches : Reaches (CallFits p) start m) :
  SameBelow entry start m
  := by
  induction reaches with
  | refl => exact fun _ _ => rfl
  | @step m m' reached fits stepped ih =>
    have framed' := framed.of_reaches compiled inRange reached
    have compiled' : CompiledFrom p m.exe := reached.sameProgram.exe ▸ compiled
    have same := framed'.sameBelow_step compiled' inRange fits
    rw [stepped] at same
    exact ih.trans same

/-- Calls have as many arguments as their functions have parameters. -/
def Usage.fitting (p : Program) : Usage := { Usage.any with fits := CallFits p }

/-- However a run ends, it leaves the cells below its frames alone. -/
theorem Framed.sameBelow_resume (framed : m.Framed p entry) (compiled : CompiledFrom p m.exe)
    (inRange : p.SlotsInRange) (used : UsedBy (.fitting p) m) (fuel : Nat) :
  SameBelow entry m (resume fuel m).2
  := by
  obtain ⟨m₁, reaches, ends⟩ := exists_resume_eq fuel m
  have reaches' : Reaches (CallFits p) m m₁ := used.reaches reaches
  have same := framed.sameBelow_of_reaches compiled inRange reaches'
  rcases ends with ends | ends
  · rw [ends]
    exact same
  · have framed' := framed.of_reaches compiled inRange reaches'
    have compiled' : CompiledFrom p m₁.exe := reaches.sameProgram.exe ▸ compiled
    rw [ends]
    exact same.trans (framed'.sameBelow_step compiled' inRange (used m₁ reaches))

/-! ### Entering a function -/

theorem pushAll_patched {q : Nat → Option Cell} (spared : ∀ k, m.stack.sp ≤ k → q k = none) :
  pushAll args (m.patched q) = onState (patched q) (pushAll args m)
  := by
  induction args generalizing m with
  | nil => rfl
  | cons v rest ih =>
    apply bind_onState (push_patched spared v)
    intro _ m₁ pushed
    have sp := (push_eq_ok pushed).1.sp_eq
    exact ih fun k above => spared k (by omega)

/-- The entry of a call from the host does not depend on the cells in use. -/
theorem beginCall_patched {f : Function} {q : Nat → Option Cell} (linked : m.Linked)
    (fits : m.stack.sp ≤ m.stack.cells.size) (found : m.exe.functions[index]? = some f)
    (count : f.params.length = args.length) (spared : ∀ k, m.stack.sp ≤ k → q k = none) :
  beginCall index f args (m.patched q) = onState (patched q) (beginCall index f args m)
  := by
  unfold beginCall
  apply bind_onState (pushAll_patched spared)
  intro _ m₁ pushed
  obtain ⟨extended, same⟩ := pushAll_eq_ok pushed
  have sp := extended.sp_eq
  rw [List.length_map] at sp
  have held : m₁.stack.Holds m.stack.sp args := by
    refine ⟨sp, extended.fits (.inl fits), fun k v listed => extended.cell k _ ?_⟩
    rw [List.getElem?_map, listed]
    rfl
  have linked₁ : m₁.Linked := by
    rw [same]
    exact linked
  have found₁ : m₁.exe.functions[index]? = some f := by
    rw [same]
    exact found
  split
  · have called : callNative index f (m₁.patched q) = onState (patched q) (callNative index f m₁) := by
      cases bound : (m₁.natives[index]?).join with
      | none =>
        rw [callNative_of_none bound, callNative_of_none (m := m₁.patched q) bound]
        rfl
      | some native =>
        have arity : args.length = native.arity := by
          rw [linked₁ index native f bound found₁, count]
        have off : OffStack (some <$> onHost (native.run args)) := (OffStack.onHost _).map _
        rw [callNative_eq bound held arity,
          callNative_eq (m := m₁.patched q) bound (held.patched spared) arity]
        exact operate_patched off held (by omega) spared
    apply bind_onState called
    intro _ m₂ ran
    obtain ⟨-, r, -, -, rewritten, -⟩ := callNative_eq_ok linked₁ found₁ held count.symm ran
    have result : m₂.stack.Holds m.stack.sp ([] ++ [r]) := rewritten.holds
    rw [bind_of_ok (pop_eq result), bind_of_ok (pop_eq (m := m₂.patched q) (result.patched spared))]
    rfl
  · apply bind_onState
    · exact enterFunction_patched (by omega) held.fits fun k above => spared k (by omega)
    · exact fun _ _ _ => rfl

theorem sameBelow_beginCall {f : Function} (linked : m.Linked)
    (fits : m.stack.sp ≤ m.stack.cells.size) (found : m.exe.functions[index]? = some f)
    (count : f.params.length = args.length) :
  SameBelow m.stack.sp m (stateOf (beginCall index f args m))
  := by
  intro k below
  have size_le := (KeepsLimit.law.beginCall index f args m).size_le
  refine cell_of_patched (by omega) size_le (beginCall_patched linked fits found count ?_)
  intro j above
  exact ownCell_ne (by omega) m

/-- Whatever comes of a call from the host, the cells in use before it are as they were. -/
theorem sameBelow_enterFromHost (compiled : CompiledFrom p m.exe) (inRange : p.SlotsInRange)
    (linked : m.Linked) (fits : m.stack.sp ≤ m.stack.cells.size)
    (used : ∀ f m', m.exe.functions[index]? = some f → beginCall index f args m = .ok none m' →
      UsedBy (.fitting p) m') (fuel : Nat) :
  SameBelow m.stack.sp m (enterFromHost fuel index args m).2
  := by
  rcases enterFromHost_eq fuel index args m with same | ⟨f, found, count, same | ⟨m₁, ran, same⟩⟩
  · rw [same]
    exact fun _ _ => rfl
  · rw [same]
    exact sameBelow_beginCall linked fits found count
  · have begun := sameBelow_beginCall linked fits found count
    rw [ran] at begun
    have enters : m.Enters m.stack.sp m₁ := .call found count ran
    have compiled₁ : CompiledFrom p m₁.exe := enters.sameProgram.exe ▸ compiled
    have framed := enters.framed compiled linked
    rw [same]
    exact begun.trans (framed.sameBelow_resume compiled₁ inRange (used f m₁ found ran) fuel)

/-- The stack pointer never leaves the stack. -/
theorem Session.sp_le {usage : Usage} (session : Session exe usage m) :
  m.stack.sp ≤ m.stack.cells.size
  := by
  obtain ⟨config, clock, start, made, served⟩ := session.served
  have kept := served.follows KeepsLimit.law fun _ _ _ => .of_same rfl rfl
  exact (kept.within _ _ (.new? made)).stack.sp_le

/-- A call from the host leaves the machine as it found it, whether the function exists, takes these
arguments and comes to an end, or not: the registers, the stack pointer and all cells in use are what
they were. -/
theorem callFunction_restores {p : Program} {exe : Executable} {m : Machine} {args : List Value}
    {index : Nat} (compiled : compile p = .ok exe) (inRange : p.SlotsInRange)
    (session : Session exe .any m)
    (used : ∀ f m', m.exe.functions[index]? = some f → beginCall index f args m = .ok none m' →
      UsedBy (.fitting p) m') (fuel : Nat) :
  (callFunction fuel index args m).2.registers = m.registers
    ∧ (callFunction fuel index args m).2.stack.sp = m.stack.sp
    ∧ ∀ k, k < m.stack.sp →
        (callFunction fuel index args m).2.stack.cells[k]? = m.stack.cells[k]?
  := by
  have compiled' : CompiledFrom p m.exe := session.exe_eq ▸ compile_eq_ok compiled
  exact ⟨rfl, rfl, sameBelow_enterFromHost compiled' inRange session.linked session.sp_le used fuel⟩

/-! ### An instance -/

/-- The machine after a run that has ended in a division by zero, with the frame of the function. -/
def divisionFailed : Machine := (run 6 divisionMachine).2

/-- The same function is called by the host. This is after so many of its instructions. -/
def divisionCalled (count : Nat) : Machine :=
  (resume count (stateOf (beginCall 0 divisionExecutable.functions[0] [.ofInt 5] divisionFailed))).2

/-- The function has no calls and stays in its frame. -/
theorem usedBy_divisionCalled :
  UsedBy (.fitting divisionCall) (divisionCalled 0)
  := by
  have fits {m : Machine} (current : m.registers.current = some 0) : m.CallFits divisionCall := by
    have noCall : ∀ point ∈ divisionCall.points (some 0), point.op ≠ .invoke := by decide
    apply callFits_of_no_call
    rw [current]
    exact fun point listed call => absurd call (noCall point listed)
  have first : step (divisionCalled 0) = .ok .running (divisionCalled 1) := by cbv
  have second : step (divisionCalled 1) = .ok .running (divisionCalled 2) := by cbv
  have third : step (divisionCalled 2)
      = .error (.error .divisionByZero) (stateOf (step (divisionCalled 2))) := by cbv
  have usedThird : UsedBy (.fitting divisionCall) (divisionCalled 2) :=
    .of_error (fits (by cbv)) third
  have usedSecond : UsedBy (.fitting divisionCall) (divisionCalled 1) :=
    .of_step (fits (by cbv)) second usedThird
  exact .of_step (fits (by cbv)) first usedSecond

/-- The call fails as the run has, and leaves the frame of the run as it was. -/
theorem callFunction_restores_division :
  (callFunction 9 0 [.ofInt 5] divisionFailed).1 = .failed ⟨.divisionByZero, "divide", 7⟩
    ∧ divisionFailed.stack.sp = 3
    ∧ ∀ k, k < divisionFailed.stack.sp →
        (callFunction 9 0 [.ofInt 5] divisionFailed).2.stack.cells[k]?
          = divisionFailed.stack.cells[k]?
  := by
  have compiled : compile divisionCall = .ok divisionExecutable := by cbv
  have inRange : divisionCall.SlotsInRange := by
    intro f listed body bodied slot used
    obtain rfl := List.mem_singleton.1 listed
    cases bodied
    obtain rfl := List.mem_singleton.1 used
    decide
  have made : new? divisionExecutable { initialStackSize := 4, maxStackSize := 8 } 0
      = some divisionMachine := rfl
  have session : Session divisionExecutable .any divisionFailed :=
    .run 6 (.start made) fun _ _ => trivial
  have entered : beginCall 0 divisionExecutable.functions[0] [.ofInt 5] divisionFailed
      = .ok none (divisionCalled 0) := by cbv
  have used : ∀ f m', divisionFailed.exe.functions[0]? = some f →
      beginCall 0 f [.ofInt 5] divisionFailed = .ok none m' → UsedBy (.fitting divisionCall) m' := by
    intro f m' found begun
    rw [session.exe_eq] at found
    obtain rfl : f = divisionExecutable.functions[0] := (Option.some.inj found).symm
    have same : divisionCalled 0 = m' :=
      (congrArg stateOf entered).symm.trans (congrArg stateOf begun)
    rw [← same]
    exact usedBy_divisionCalled
  exact ⟨by cbv, by cbv, (callFunction_restores compiled inRange session used 9).2.2⟩

end Machine

end Bytecode
