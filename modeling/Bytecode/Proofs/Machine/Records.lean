import Mathlib
import Bytecode.Proofs.Machine.Instructions

/-!
# Call records

A call record lies on the stack from the call that made it until something else is written to its
cell, which may be long after its frame has been left. Actions on values make no call records,
`Stack.OnValues.modest`, so the only actions that do are calls. An action that makes none and stays
where the machine is, is `Machine.Tame`.
-/

namespace Bytecode

open Machine

namespace Stack

/-- Every call record of the second stack, in use or not, is one of the first. -/
def KeepsRecords (s s' : Stack) : Prop :=
  ∀ k info, s'.callInfo? k = some info → s.callInfo? k = some info

variable {s s' s'' : Stack} {k : Nat} {info : CallInfo}

theorem callInfo?_eq_some_iff :
  s.callInfo? k = some info ↔ s.cells[k]? = some (.call info)
  := by
  unfold callInfo?
  split
  · next info' found => simp [found]
  · next other =>
      simp only [reduceCtorEq, false_iff]
      apply other info

theorem KeepsRecords.of_cells (same : s'.cells = s.cells) :
  KeepsRecords s s'
  := by
  intro k info record
  rw [callInfo?_eq_some_iff] at record ⊢
  rwa [← same]

theorem KeepsRecords.trans (first : KeepsRecords s s') (second : KeepsRecords s' s'') :
  KeepsRecords s s''
  := fun k info record => first k info (second k info record)

/-- An action on a stack that fails only by a crash or if there is no room. -/
def Modest {α : Type} (Q : Stack → Stack → Prop) (action : StackM α) : Prop :=
  ∀ s, Ends (fun _ s' => Q s s')
    (fun trap s' => (trap = .crash ∨ ∃ limit, trap = .error (.stackOverflow limit)) ∧ Q s s')
    (action s)

theorem modest_reserve (needed : Nat) :
  Modest KeepsRecords (reserve needed)
  := by
  intro s
  have same : KeepsRecords s s := .of_cells rfl
  unfold reserve
  dsimp only
  split
  · exact ⟨.inl rfl, same⟩
  · split
    · exact same
    · split
      · exact ⟨.inr ⟨_, rfl⟩, same⟩
      · split
        · exact ⟨.inl rfl, same⟩
        · intro k info record
          rw [callInfo?_eq_some_iff] at record ⊢
          rw [grow, Array.getElem?_append] at record
          split at record
          · exact record
          · rw [Array.getElem?_replicate] at record
            split at record
            all_goals cases record

/-- The second stack has no call records but those of the first and perhaps another one. -/
def AddsRecord (cell : Cell) (s s' : Stack) : Prop :=
  ∀ k info, s'.callInfo? k = some info → s.callInfo? k = some info ∨ cell = .call info

theorem modest_place (cell : Cell) :
  Modest (AddsRecord cell) (place cell)
  := by
  intro s
  unfold place
  split
  · intro k info record
    rw [callInfo?_eq_some_iff, Array.getElem?_set] at record
    split at record
    · cases record
      exact .inr rfl
    · rw [callInfo?_eq_some_iff]
      exact .inl record
  · exact ⟨.inl rfl, fun _ _ record => .inl record⟩

/-- A push makes no record but the one that is pushed. -/
theorem modest_pushCell (cell : Cell) :
  Modest (AddsRecord cell) (pushCell cell)
  := by
  intro s
  unfold pushCell
  split
  · have reserved := modest_reserve 1 s
    cases ran : reserve 1 s with
    | ok _ s₁ =>
      rw [ran] at reserved
      apply (modest_place cell s₁).mono
      · exact fun _ s' adds k info record => (adds k info record).imp_left (reserved k info)
      · exact fun _ s' fails =>
          ⟨fails.1, fun k info record => (fails.2 k info record).imp_left (reserved k info)⟩
    | error trap s₁ =>
      rw [ran] at reserved
      exact ⟨reserved.1, fun k info record => .inl (reserved.2 k info record)⟩
  · apply modest_place

/-- An action that changes no cells. -/
def Reads {α : Type} (action : StackM α) : Prop :=
  ∀ s, Ends (fun _ s' => s'.cells = s.cells) (fun trap s' => trap = .crash ∧ s'.cells = s.cells)
    (action s)

theorem reads_bind {α β : Type} {action : StackM α} {f : α → StackM β} (first : Reads action)
    (second : ∀ a, Reads (f a)) :
  Reads (action >>= f)
  := by
  intro s
  apply (first s).mono (fun _ _ same => same) (fun _ _ fails => fails) |>.bind
  intro a s₁ same
  have later := second a s₁
  rwa [same] at later

theorem reads_shrink (count : Nat) :
  Reads (shrink count)
  := by
  intro s
  unfold shrink
  split
  · rfl
  · exact ⟨rfl, rfl⟩

theorem reads_get (index : Nat) :
  Reads (get index)
  := by
  intro s
  unfold get
  split
  · rfl
  · exact ⟨rfl, rfl⟩

theorem reads_fromTop (depth : Nat) :
  Reads (fromTop depth)
  := by
  intro s
  unfold fromTop
  split
  · rfl
  · exact ⟨rfl, rfl⟩

theorem reads_top (count : Nat) :
  Reads (top count)
  := by
  intro s
  unfold top
  split
  · rfl
  · exact ⟨rfl, rfl⟩

theorem reads_pop :
  Reads pop
  := by
  apply reads_bind (reads_shrink 1)
  intro _ s
  apply reads_get s.sp s

theorem reads_peek (depth : Nat) :
  Reads (peek depth)
  := reads_bind (reads_fromTop depth) reads_get

theorem modest_set (index : Nat) (v : Value) :
  Modest KeepsRecords (set index v)
  := by
  intro s
  unfold set
  split
  · intro k info record
    rw [callInfo?_eq_some_iff, Array.getElem?_set] at record
    rw [callInfo?_eq_some_iff]
    split at record
    · cases record
    · exact record
  · exact ⟨.inl rfl, .of_cells rfl⟩

/-- Actions on values make no call records. -/
theorem OnValues.modest {α : Type} {action : StackM α} (onValues : OnValues action) :
  Modest KeepsRecords action
  := by
  have reading {α : Type} {action : StackM α} (reads : Reads action) :
      Modest KeepsRecords action := fun s =>
    (reads s).mono (fun _ _ same => .of_cells same) fun _ _ fails => ⟨.inl fails.1, .of_cells fails.2⟩
  cases onValues with
  | push v =>
    intro s
    have made {s' : Stack} (adds : AddsRecord (.value v) s s') : KeepsRecords s s' :=
      fun k info record => (adds k info record).resolve_right nofun
    apply (modest_pushCell (.value v) s).mono
    · exact fun _ _ => made
    · exact fun _ _ fails => ⟨fails.1, made fails.2⟩
  | pop => exact reading reads_pop
  | peek depth => exact reading (reads_peek depth)
  | replace depth v =>
    intro s
    apply (reads_fromTop depth s).mono (fun _ _ same => same)
      (fun _ _ fails => ⟨Or.inl fails.1, KeepsRecords.of_cells fails.2⟩) |>.bind
    intro index s₁ same
    apply (modest_set index v s₁).mono
    · exact fun _ _ => (KeepsRecords.of_cells same).trans
    · exact fun _ _ fails => ⟨fails.1, (KeepsRecords.of_cells same).trans fails.2⟩
  | top count => exact reading (reads_top count)
  | shrink count => exact reading (reads_shrink count)
  | get index => exact reading (reads_get index)
  | set index v => exact modest_set index v

end Stack

namespace Machine

variable {α : Type} {x : MachineM α}

/-- An action that stays where the machine is and makes no call records. -/
def Tame {α : Type} (x : MachineM α) : Prop :=
  ∀ m, Ends (fun _ m' => m'.registers = m.registers ∧ m.stack.KeepsRecords m'.stack)
    (fun trap m' => (∀ e, trap ≠ .error (.decode e)) ∧ m.stack.KeepsRecords m'.stack) (x m)

theorem tame_onStack {action : StackM α} (modest : Stack.Modest Stack.KeepsRecords action) :
  Tame (onStack action)
  := by
  intro m
  have outcome := modest m.stack
  rw [onStack_eq]
  cases ran : action m.stack with
  | ok a s =>
    rw [ran] at outcome
    exact ⟨rfl, outcome⟩
  | error trap s =>
    rw [ran] at outcome
    refine ⟨?_, outcome.2⟩
    rcases outcome.1 with rfl | ⟨limit, rfl⟩
    · exact nofun
    · exact nofun

theorem tame_offStack (off : OffStack x) (faults : ∀ m e m', x m ≠ .error (.error (.decode e)) m') :
  Tame x
  := by
  intro m
  have registers := off.registers m
  have stack := off.stack m
  cases ran : x m with
  | ok a m' =>
    rw [ran] at registers stack
    exact ⟨registers, .of_cells (congrArg Stack.cells stack)⟩
  | error trap m' =>
    rw [ran] at stack
    refine ⟨?_, .of_cells (congrArg Stack.cells stack)⟩
    rintro e rfl
    apply faults m e m' ran

theorem Tame.bind {β : Type} {f : α → MachineM β} (first : Tame x) (second : ∀ a, Tame (f a)) :
  Tame (x >>= f)
  := by
  intro m
  apply (first m).bind
  rintro a m₁ ⟨registers, kept⟩
  apply (second a m₁).mono
  · exact fun _ m' later => ⟨later.1.trans registers, kept.trans later.2⟩
  · exact fun _ m' later => ⟨later.1, kept.trans later.2⟩

/-- Instructions that go on behind themselves are tame. -/
theorem tame_of_made (made : Made x) :
  Tame x
  := by
  induction made with
  | pure a => exact fun m => ⟨rfl, .of_cells rfl⟩
  | bind _ _ first second => apply first.bind second
  | onStack onValues => apply tame_onStack onValues.modest
  | offStack off ordinary =>
    apply tame_offStack off
    intro m e m' raised
    cases ordinary.faults m _ m' raised

end Machine

end Bytecode
