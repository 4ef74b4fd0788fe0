import Mathlib
import Bytecode.Proofs.Machine.Records
import Bytecode.Proofs.Machine.Sessions

/-!
# The limit of the stack

A stack starts with an array of some size and enlarges it as long as its limit allows. The limit
is looked at only when the array is too small, so what a stack can hold is `Stack.bound`: the
cells of its first array, or the limit if that is more. Up to there every request succeeds, beyond
it every request is refused with an overflow and changes nothing, `Stack.Respects`. The stack
pointer therefore stays below the limit if and only if the first array does.

For a machine it takes that frames start within the array, which holds of the frame that runs and
of every frame that a call record goes back to, `Machine.Within`.
-/

namespace Bytecode

open Machine

namespace Stack

/-- The number of cells that a stack can hold: those of its first array, or its limit if that is
more. -/
def bound (initial limit : Nat) : Nat := max (max initial 1) limit

/-- The stack holds at most so many cells. It refuses to hold more, with an overflow that names
the limit and changes nothing, and refuses nothing else if so many cells can be addressed. -/
structure Respects (bound limit : Nat) (s : Stack) : Prop where
  sp_le : s.sp ≤ bound
  pushCell_fails_iff : ∀ cell f s', pushCell cell s = .error (.error f) s'
    ↔ s.sp = bound ∧ f = .stackOverflow limit ∧ s' = s
  reserve_fails_iff : ∀ needed f s', reserve needed s = .error (.error f) s'
    ↔ bound < s.sp + needed ∧ s.sp + needed < 2 ^ 64 ∧ f = .stackOverflow limit ∧ s' = s
  pushCell_succeeds : bound < unaddressable → s.sp < bound → ∀ cell, ∃ s', pushCell cell s = .ok () s'
  reserve_succeeds : bound < unaddressable → ∀ needed, s.sp + needed ≤ bound →
    ∃ s', reserve needed s = .ok () s'

/-! ### The array -/

/-- What actions do to the size of the array: it is not made smaller, nor larger than the limit
allows. The stack pointer stays within it. -/
structure Grows (s s' : Stack) : Prop where
  limit_eq : s'.limit = s.limit
  size_le : s.cells.size ≤ s'.cells.size
  le_limit : s'.cells.size ≤ max s.cells.size s.limit
  addressable : s.cells.size < unaddressable → s'.cells.size < unaddressable
  sp_le : s.sp ≤ s.cells.size → s'.sp ≤ s'.cells.size

theorem Grows.refl (s : Stack) :
  s.Grows s
  := ⟨rfl, Nat.le_refl _, Nat.le_max_left _ _, id, id⟩

theorem Grows.trans {s s' s'' : Stack} (first : s.Grows s') (second : s'.Grows s'') :
  s.Grows s''
  where
  limit_eq := second.limit_eq.trans first.limit_eq
  size_le := Nat.le_trans first.size_le second.size_le
  le_limit := by
    have := first.le_limit
    have := second.le_limit
    rw [first.limit_eq] at this
    omega
  addressable small := second.addressable (first.addressable small)
  sp_le fits := second.sp_le (first.sp_le fits)

/-- The array has stayed as it was, and the stack pointer has not been raised. -/
theorem Grows.of_size {s s' : Stack} (limit : s'.limit = s.limit)
    (size : s'.cells.size = s.cells.size) (sp : s'.sp ≤ s.sp) :
  s.Grows s'
  := ⟨limit, by omega, by omega, by omega, by omega⟩

/-- However the action ends, the array is one that it may grow to. -/
def Growing {α : Type} (action : StackM α) : Prop :=
  ∀ s : Stack, s.Grows (stateOf (action s))

namespace Growing

variable {α β : Type}

theorem bind {action : StackM α} {f : α → StackM β} (first : Growing action)
    (second : ∀ a, Growing (f a)) :
  Growing (action >>= f)
  := by
  intro s
  have before := first s
  rw [stateOf_bind]
  cases run : action s with
  | ok a s₁ =>
    rw [run] at before
    exact before.trans (second a s₁)
  | error trap s₁ =>
    rw [run] at before
    exact before

theorem shrink (count : Nat) :
  Growing (Stack.shrink count)
  := by
  intro s
  unfold Stack.shrink
  split
  · exact .of_size rfl rfl (Nat.sub_le _ _)
  · exact .refl s

theorem get (index : Nat) :
  Growing (Stack.get index)
  := by
  intro s
  unfold Stack.get
  split
  all_goals exact .refl s

theorem fromTop (depth : Nat) :
  Growing (Stack.fromTop depth)
  := by
  intro s
  unfold Stack.fromTop
  split
  all_goals exact .refl s

theorem top (count : Nat) :
  Growing (Stack.top count)
  := by
  intro s
  unfold Stack.top
  split
  all_goals exact .refl s

theorem set (index : Nat) (v : Value) :
  Growing (Stack.set index v)
  := by
  intro s
  unfold Stack.set
  split
  · next inside => exact .of_size rfl (Array.size_set inside) (Nat.le_refl _)
  · exact .refl s

theorem pop :
  Growing Stack.pop
  := (shrink 1).bind fun _ s => get s.sp s

theorem reserve (needed : Nat) :
  Growing (Stack.reserve needed)
  := by
  intro s
  unfold Stack.reserve
  dsimp only
  split
  · exact .refl s
  · split
    · exact .refl s
    · split
      · exact .refl s
      · split
        · exact .refl s
        · next tight allowed small =>
            have size : (s.grow (s.grownSize (s.sp + needed))).cells.size
                = s.cells.size + (s.grownSize (s.sp + needed) - s.cells.size) := by
              simp [grow]
            have grown : s.grownSize (s.sp + needed) ≤ s.limit := Nat.min_le_right _ _
            change s.Grows (s.grow (s.grownSize (s.sp + needed)))
            refine ⟨rfl, by omega, by omega, by omega, ?_⟩
            intro fits
            change s.sp ≤ _
            omega

theorem place (cell : Cell) :
  Growing (Stack.place cell)
  := by
  intro s
  unfold Stack.place
  split
  · next room =>
      have size := Array.size_set room (v := cell)
      refine ⟨rfl, ?_, ?_, ?_, ?_⟩
      all_goals
        simp only [stateOf_ok]
        omega
  · exact .refl s

theorem pushCell (cell : Cell) :
  Growing (Stack.pushCell cell)
  := by
  intro s
  unfold Stack.pushCell
  split
  · have reserved := reserve 1 s
    cases run : Stack.reserve 1 s with
    | ok _ s₁ =>
      rw [run] at reserved
      exact reserved.trans (place cell s₁)
    | error trap s₁ =>
      rw [run] at reserved
      exact reserved
  · exact place cell s

theorem of_onValues {action : StackM α} (onValues : OnValues action) :
  Growing action
  := by
  cases onValues with
  | push v => exact pushCell _
  | pop => exact pop
  | peek depth => exact (fromTop depth).bind get
  | replace depth v => exact (fromTop depth).bind fun index => set index v
  | top count => exact top count
  | shrink count => exact shrink count
  | get index => exact get index
  | set index v => exact set index v

end Growing

/-- The stack has grown from an array of the given size, within the given limit. -/
structure Within (initial limit : Nat) (s : Stack) : Prop where
  limit_eq : s.limit = limit
  sp_le : s.sp ≤ s.cells.size
  le_size : max initial 1 ≤ s.cells.size
  size_le : s.cells.size ≤ bound initial limit
  addressable : s.cells.size < unaddressable

namespace Within

variable {initial limit : Nat} {s s' : Stack}

theorem grows (within : s.Within initial limit) (grows : s.Grows s') :
  s'.Within initial limit
  where
  limit_eq := grows.limit_eq.trans within.limit_eq
  sp_le := grows.sp_le within.sp_le
  le_size := Nat.le_trans within.le_size grows.size_le
  size_le := by
    have := grows.le_limit
    have := within.size_le
    rw [within.limit_eq] at *
    unfold bound at *
    omega
  addressable := grows.addressable within.addressable

theorem tryNew (made : Stack.tryNew initial limit = some s) :
  s.Within initial limit
  := by
  unfold Stack.tryNew at made
  split at made
  · next small =>
      cases made
      have size : (Stack.new initial limit).cells.size = max initial 1 := Array.size_replicate
      have large : 1 < unaddressable := by decide
      exact ⟨rfl, Nat.zero_le _, by omega, by unfold bound; omega, by omega⟩
  · cases made

section

variable (within : s.Within initial limit)
include within

/-- The array can be enlarged only if the limit is above its first size. -/
theorem limit_lt_iff {required : Nat} (tight : s.cells.size < required) :
  limit < required ↔ bound initial limit < required
  := by
  have := within.le_size
  have := within.size_le
  unfold bound at *
  omega

theorem reserve_fails_iff (needed : Nat) (f : Fault) (s' : Stack) :
  reserve needed s = .error (.error f) s'
    ↔ bound initial limit < s.sp + needed ∧ s.sp + needed < 2 ^ 64
      ∧ f = .stackOverflow limit ∧ s' = s
  := by
  have size := within.size_le
  have word : (1 <<< 64 : Nat) = 2 ^ 64 := rfl
  unfold reserve
  dsimp only
  rw [word, within.limit_eq]
  split
  · simp only [reduceCtorEq, EStateM.Result.error.injEq, false_and, false_iff]
    omega
  · split
    · simp only [reduceCtorEq, false_iff]
      omega
    · next tight =>
        have allowed := within.limit_lt_iff (Nat.not_le.1 tight)
        split
        · next full =>
            constructor
            · intro failed
              cases failed
              exact ⟨allowed.1 full, by omega, rfl, rfl⟩
            · rintro ⟨-, -, rfl, rfl⟩
              rfl
        · next allows =>
            split
            · simp only [EStateM.Result.error.injEq, reduceCtorEq, false_and, false_iff]
              exact fun both => allows (allowed.2 both.1)
            · simp only [reduceCtorEq, false_iff]
              exact fun both => allows (allowed.2 both.1)

theorem reserve_succeeds (small : bound initial limit < unaddressable) (needed : Nat)
    (fits : s.sp + needed ≤ bound initial limit) :
  ∃ s', reserve needed s = .ok () s'
  := by
  have large : unaddressable < 1 <<< 64 := by decide
  unfold reserve
  dsimp only
  rw [if_neg (by omega)]
  split
  · exact ⟨_, rfl⟩
  · next tight =>
      have allowed := within.limit_lt_iff (Nat.not_le.1 tight)
      have grown : s.grownSize (s.sp + needed) ≤ limit := by
        rw [← within.limit_eq]
        exact Nat.min_le_right _ _
      have capped : limit ≤ bound initial limit := Nat.le_max_right _ _
      rw [within.limit_eq, if_neg (by omega), if_neg (by omega)]
      exact ⟨_, rfl⟩

theorem pushCell_fails_iff (cell : Cell) (f : Fault) (s' : Stack) :
  pushCell cell s = .error (.error f) s'
    ↔ s.sp = bound initial limit ∧ f = .stackOverflow limit ∧ s' = s
  := by
  have sp := within.sp_le
  have size := within.size_le
  have small := within.addressable
  have large : unaddressable < 2 ^ 64 - 1 := by decide
  by_cases full : s.sp = s.cells.size
  · have refused := within.reserve_fails_iff 1 f s'
    unfold pushCell
    rw [if_pos full]
    constructor
    · intro failed
      cases made : reserve 1 s with
      | ok _ s₁ =>
        rw [made] at failed
        dsimp only at failed
        have reserved := reserve_eq_ok made
        have room := reserved.room
        rw [place_eq (by rw [reserved.sp_eq]; omega)] at failed
        cases failed
      | error trap s₁ =>
        rw [made] at failed
        obtain ⟨beyond, -, rest⟩ := refused.1 (made.trans failed)
        exact ⟨by omega, rest⟩
    · rintro ⟨last, rest⟩
      rw [refused.2 ⟨by omega, by omega, rest⟩]
  · rw [pushCell_eq_of_lt (by omega)]
    simp only [reduceCtorEq, false_iff]
    omega

theorem pushCell_succeeds (small : bound initial limit < unaddressable)
    (room : s.sp < bound initial limit) (cell : Cell) :
  ∃ s', pushCell cell s = .ok () s'
  := by
  have sp := within.sp_le
  by_cases full : s.sp = s.cells.size
  · obtain ⟨s₁, made⟩ := within.reserve_succeeds small 1 room
    have reserved := reserve_eq_ok made
    have fits := reserved.room
    unfold pushCell
    rw [if_pos full, made]
    dsimp only
    rw [place_eq (by rw [reserved.sp_eq]; omega)]
    exact ⟨_, rfl⟩
  · exact ⟨_, pushCell_eq_of_lt (by omega)⟩

theorem respects :
  s.Respects (bound initial limit) limit
  where
  sp_le := Nat.le_trans within.sp_le within.size_le
  pushCell_fails_iff := within.pushCell_fails_iff
  reserve_fails_iff := within.reserve_fails_iff
  pushCell_succeeds small room := within.pushCell_succeeds small room
  reserve_succeeds small := within.reserve_succeeds small

end

end Within

/-! ### Requests to a stack -/

/-- What can be asked of a stack. -/
inductive Request where
  | push (v : Value)
  | pop
  | shrink (count : Nat)
  | truncate (sp : Nat)
  | reserve (needed : Nat)
  | pushCall (info : CallInfo)

namespace Request

def action : Request → StackM Unit
  | .push v => Stack.push v
  | .pop => discard Stack.pop
  | .shrink count => Stack.shrink count
  | .truncate sp => Stack.truncate sp
  | .reserve needed => Stack.reserve needed
  | .pushCall info => Stack.pushCall info

/-- A stack is only cut down to cells in use. -/
def Fits (s : Stack) : Request → Prop
  | .truncate sp => sp ≤ s.sp
  | _ => True

end Request

/-- What becomes of a stack by requests that it grants or refuses. -/
inductive History (start : Stack) : Stack → Prop
  | refl : History start start
  | granted {s s' : Stack} (request : Request) :
      History start s → request.Fits s → request.action s = .ok () s' → History start s'
  | refused {s s' : Stack} (request : Request) {f : Fault} :
      History start s → request.Fits s → request.action s = .error (.error f) s' →
      History start s'

/-- Every request leaves an array that the stack may grow to. -/
theorem Request.grows {s : Stack} {request : Request} (fits : request.Fits s) :
  s.Grows (stateOf (request.action s))
  := by
  cases request with
  | push v | pushCall info => exact Growing.pushCell _ s
  | pop =>
    have popped := Growing.pop.bind (f := fun _ => pure ()) fun _ s => .refl s
    exact popped s
  | shrink count => exact Growing.shrink count s
  | truncate sp => exact .of_size rfl rfl fits
  | reserve needed => exact Growing.reserve needed s

theorem History.grows {start s : Stack} (history : History start s) :
  start.Grows s
  := by
  induction history with
  | refl => exact .refl start
  | granted _ _ fits run ih | refused _ _ fits run ih =>
    have grows := Request.grows fits
    rw [run] at grows
    exact ih.trans grows

/-- A stack can be filled up to the end of its first array. -/
theorem exists_history_sp {initial limit : Nat} {start : Stack}
    (made : tryNew initial limit = some start) {count : Nat} (inside : count ≤ max initial 1) :
  ∃ s, History start s ∧ s.sp = count
  := by
  have within := Within.tryNew made
  induction count with
  | zero =>
    refine ⟨start, .refl, ?_⟩
    unfold tryNew at made
    split at made
    all_goals cases made
    rfl
  | succ count ih =>
    obtain ⟨s, history, sp⟩ := ih (by omega)
    have size := (within.grows history.grows).le_size
    have pushed : push .zero s = .ok () _ := pushCell_eq_of_lt (by omega)
    exact ⟨_, .granted (.push .zero) history trivial pushed, by rw [← sp]⟩

end Stack

/-! ### The stack of a machine -/

namespace Machine

/-- The stack has grown as it may, and frames start within its array: the one that runs and those
that call records go back to. -/
structure Within (initial limit : Nat) (m : Machine) : Prop where
  stack : m.stack.Within initial limit
  base_le : m.registers.base ≤ m.stack.cells.size
  record_le : ∀ k info, m.stack.callInfo? k = some info → info.base ≤ m.stack.cells.size

/-- The array has not been made smaller, and the stack still has grown as it may. -/
structure KeepsLimit (m m' : Machine) : Prop where
  size_le : m.stack.cells.size ≤ m'.stack.cells.size
  within : ∀ initial limit, m.Within initial limit → m'.Within initial limit

namespace KeepsLimit

variable {m m' m'' : Machine}

theorem trans (first : m.KeepsLimit m') (second : m'.KeepsLimit m'') :
  m.KeepsLimit m''
  where
  size_le := Nat.le_trans first.size_le second.size_le
  within initial limit within := second.within initial limit (first.within initial limit within)

theorem of_same (stack : m'.stack = m.stack) (base : m'.registers.base = m.registers.base) :
  m.KeepsLimit m'
  where
  size_le := by rw [stack]
  within initial limit within := by
    constructor
    · rw [stack]
      exact within.stack
    · rw [stack, base]
      exact within.base_le
    · rw [stack]
      exact within.record_le

instance : IsPreorder Machine KeepsLimit where
  refl _ := of_same rfl rfl
  trans _ _ _ := trans

/-- The stack has grown, and every new record goes back to the frame that runs. -/
theorem of_stack {s : Stack} (grows : m.stack.Grows s)
    (records : ∀ k info, s.callInfo? k = some info →
      m.stack.callInfo? k = some info ∨ info.base = m.registers.base) :
  m.KeepsLimit { m with stack := s }
  where
  size_le := grows.size_le
  within initial limit within := by
    refine ⟨within.stack.grows grows, Nat.le_trans within.base_le grows.size_le, ?_⟩
    intro k info record
    apply Nat.le_trans _ grows.size_le
    rcases records k info record with old | same
    · exact within.record_le k info old
    · rw [same]
      exact within.base_le

/-- The frame that runs now starts where the array was at the beginning. -/
theorem withBase (kept : m.KeepsLimit m') {r : Registers}
    (inside : ∀ initial limit, m.Within initial limit → r.base ≤ m.stack.cells.size) :
  m.KeepsLimit { m' with registers := r }
  where
  size_le := kept.size_le
  within initial limit within := by
    have later := kept.within initial limit within
    exact ⟨later.stack, Nat.le_trans (inside initial limit within) kept.size_le, later.record_le⟩

/-- The stack pointer, too, is put to where the array was at the beginning. -/
theorem withFrame (kept : m.KeepsLimit m') {sp : Nat} {r : Registers}
    (inside : ∀ initial limit, m.Within initial limit →
      sp ≤ m.stack.cells.size ∧ r.base ≤ m.stack.cells.size) :
  m.KeepsLimit { m' with stack := { m'.stack with sp }, registers := r }
  where
  size_le := kept.size_le
  within initial limit within := by
    have later := kept.within initial limit within
    obtain ⟨sp_le, base_le⟩ := inside initial limit within
    have stack := later.stack
    exact ⟨⟨stack.limit_eq, Nat.le_trans sp_le kept.size_le, stack.le_size, stack.size_le,
      stack.addressable⟩, Nat.le_trans base_le kept.size_le, later.record_le⟩

theorem onStack {α : Type} {action : StackM α} (growing : Stack.Growing action)
    (modest : Stack.Modest Stack.KeepsRecords action) :
  Follows KeepsLimit (Machine.onStack action)
  := by
  intro m
  have grows := growing m.stack
  have records := modest m.stack
  rw [onStack_eq]
  cases run : action m.stack with
  | ok a s =>
    rw [run] at grows records
    exact of_stack grows fun k info record => .inl (records k info record)
  | error trap s =>
    rw [run] at grows records
    exact of_stack grows fun k info record => .inl (records.2 k info record)

theorem onValues {α : Type} {action : StackM α} (onValues : Stack.OnValues action) :
  Follows KeepsLimit (Machine.onStack action)
  := onStack (.of_onValues onValues) onValues.modest

theorem pushCall {info : CallInfo} (base : info.base = m.registers.base) :
  m.KeepsLimit (stateOf (Machine.onStack (Stack.pushCall info) m))
  := by
  have grows := Stack.Growing.pushCell (.call info) m.stack
  have records := Stack.modest_pushCell (.call info) m.stack
  have added {s : Stack} (adds : Stack.AddsRecord (.call info) m.stack s) :
      ∀ k info', s.callInfo? k = some info' →
        m.stack.callInfo? k = some info' ∨ info'.base = m.registers.base := by
    intro k info' record
    rcases adds k info' record with old | new
    · exact .inl old
    · cases new
      exact .inr base
  rw [onStack_eq]
  unfold Stack.pushCall
  cases run : Stack.pushCell (.call info) m.stack with
  | ok a s =>
    rw [run] at grows records
    exact of_stack grows (added records)
  | error trap s =>
    rw [run] at grows records
    exact of_stack grows (added records.2)

theorem offStack {α : Type} {x : MachineM α} (off : OffStack x) :
  Follows KeepsLimit x
  := fun m => of_same (off.stack m) (by rw [off.registers m])

theorem enterFunction (index : Nat) (f : Function) (caller : Caller) :
  Follows KeepsLimit (Machine.enterFunction index f caller)
  := by
  intro m
  rw [Machine.enterFunction, bind_of_ok (get_eq m)]
  apply Follows.bind_at (onStack (.reserve _) (Stack.modest_reserve _) m)
  intro _ m₁ reserved
  have registers : m₁.registers = m.registers := by
    obtain ⟨s, -, rfl⟩ := onStack_eq_ok reserved
    rfl
  rw [bind_of_ok (get_eq m₁), ← registers]
  dsimp only
  split
  · exact of_same rfl rfl
  · have locals : Follows KeepsLimit (Machine.pushLocals f.locals) :=
      .of_made onValues (fun off _ => offStack off) (made_pushLocals _)
    have framed : m₁.KeepsLimit (stateOf ((do
        Machine.onStack (Stack.pushCall ⟨caller, m₁.registers.pc, m₁.registers.base⟩)
        Machine.pushLocals f.locals) m₁)) :=
      Follows.bind_at (pushCall rfl) fun _ m₂ _ => locals m₂
    rw [← bind_assoc, stateOf_bind]
    cases run : (do
        Machine.onStack (Stack.pushCall ⟨caller, m₁.registers.pc, m₁.registers.base⟩)
        Machine.pushLocals f.locals) m₁ with
    | error trap m₂ =>
      rw [run] at framed
      exact framed
    | ok _ m₂ =>
      rw [run] at framed
      apply framed.withBase
      intro initial limit within
      exact Nat.le_trans (Nat.sub_le _ _) within.stack.sp_le

theorem returnValue :
  Follows KeepsLimit Machine.returnValue
  := by
  apply (onValues .pop).bind
  intro v m
  rw [bind_of_ok (get_eq m)]
  cases m.registers.current with
  | none => exact of_same rfl rfl
  | some index =>
    dsimp only
    iterate 3 rw [bind_of_ok (get_eq m)]
    cases record : m.stack.callInfo? (m.registers.base + Frame.recordOffset
        (((m.exe.functions[index]?).map fun f => f.params.length).getD 0)) with
    | none => exact of_same rfl rfl
    | some info =>
      have dropped : m.KeepsLimit (stateOf ((do
          Machine.onStack (Stack.truncate m.registers.base)
          Machine.push v) m)) := by
        have truncated : m.KeepsLimit
            { m with stack := { m.stack with sp := m.registers.base } } :=
          (of_same rfl rfl).withFrame fun _ _ within => ⟨within.base_le, within.base_le⟩
        exact truncated.trans (onValues (.push v) _)
      dsimp only
      rw [bind_of_ok (get_eq m), ← bind_assoc, stateOf_bind]
      cases run : (do
          Machine.onStack (Stack.truncate m.registers.base)
          Machine.push v) m with
      | error trap m₁ =>
        rw [run] at dropped
        exact dropped
      | ok _ m₁ =>
        rw [run] at dropped
        have back : ∀ initial limit, m.Within initial limit →
            info.base ≤ m.stack.cells.size := fun _ _ within => within.record_le _ _ record
        cases goesOn : info.caller with
        | host | topLevel | function caller => exact dropped.withBase back

/-- All actions keep the stack within its limit. -/
theorem law :
  Law KeepsLimit
  where
  onValues := onValues
  offStack off _ := offStack off
  atPc _ _ := of_same rfl rfl
  advanced _ _ := of_same rfl rfl
  collect m := by
    obtain ⟨host, collected⟩ := stateOf_collect m
    rw [collected]
    exact of_same rfl rfl
  enterFunction := enterFunction
  callNative := Law.follows_callNative onValues fun m _ _ _ _ => offStack (.onHost _) m
  returnValue := returnValue
  restart m := by
    have same : m.KeepsLimit m := of_same rfl rfl
    exact same.withFrame fun _ _ _ => ⟨Nat.zero_le _, Nat.zero_le _⟩
  withFrameOf m m' kept := kept.withFrame fun _ _ within => ⟨within.stack.sp_le, within.base_le⟩

end KeepsLimit

/-- The stack of a new machine is empty. -/
theorem Within.new? {exe : Executable} {config : Config} {clock : Int64} {m : Machine}
    (new : Machine.new? exe config clock = some m) :
  m.Within config.initialStackSize config.maxStackSize
  := by
  obtain ⟨stack, made, rfl⟩ := Option.map_eq_some_iff.1 new
  refine ⟨.tryNew made, Nat.zero_le _, ?_⟩
  intro k info record
  change stack.callInfo? k = some info at record
  unfold Stack.tryNew at made
  split at made
  · cases made
    rw [Stack.callInfo?_eq_some_iff, Stack.new, Array.getElem?_replicate] at record
    split at record
    all_goals cases record
  · cases made

end Machine

namespace Stack

/-- A stack, on its own or in a machine, holds what its first array or its limit allows, whichever
is more, and refuses what goes beyond. It is the limit that counts if and only if the first array
is no larger; otherwise the stack can be filled beyond its limit. -/
theorem respects_bound {initial limit : Nat} {start : Stack} (positive : 1 ≤ limit)
    (made : tryNew initial limit = some start) :
  (∀ s, History start s → s.Respects (bound initial limit) limit)
    ∧ (bound initial limit = limit ↔ initial ≤ limit)
    ∧ ((∃ s, History start s ∧ limit < s.sp) ↔ limit < initial)
    ∧ ∀ exe config clock m₀ m₁ entry m₂ m,
      config.initialStackSize = initial → config.maxStackSize = limit →
      Machine.new? exe config clock = some m₀ → Machine.Served (fun _ => True) m₀ m₁ →
      m₁.Enters entry m₂ → Machine.Reaches (fun _ => True) m₂ m →
      m.stack.Respects (bound initial limit) limit
  := by
  have within := Within.tryNew made
  have respected : ∀ s, History start s → s.Respects (bound initial limit) limit :=
    fun s history => (within.grows history.grows).respects
  refine ⟨respected, by unfold bound; omega, ?_, ?_⟩
  · constructor
    · rintro ⟨s, history, beyond⟩
      have sp := (respected s history).sp_le
      unfold bound at sp
      omega
    · intro larger
      obtain ⟨s, history, sp⟩ := exists_history_sp made (Nat.le_max_left initial 1)
      exact ⟨s, history, by omega⟩
  · rintro exe config clock m₀ m₁ entry m₂ m rfl rfl new served enters reaches
    have served' := served.follows KeepsLimit.law fun m registry _ => .of_same rfl rfl
    have run := (enters.follows KeepsLimit.law).trans (KeepsLimit.law.reaches reaches)
    exact ((served'.trans run).within _ _ (.new? new)).stack.respects

theorem respects_bound_four :
  tryNew 4 2 = some (new 4 2) ∧ ∃ s, History (new 4 2) s ∧ 2 < s.sp
  := by
  have made : tryNew 4 2 = some (new 4 2) := rfl
  exact ⟨made, (respects_bound (by decide) made).2.2.1.2 (by decide)⟩

/-- A stack that starts with four cells and has a limit of two takes a third value. -/
theorem push_beyond_limit :
  ∃ s, (do push (.ofInt 1); push (.ofInt 2); push (.ofInt 3)) (new 4 2) = .ok () s
    ∧ s.limit < s.sp
  := ⟨_, rfl, by decide⟩

end Stack

end Bytecode
