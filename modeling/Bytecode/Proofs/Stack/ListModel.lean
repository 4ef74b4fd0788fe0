import Mathlib
import Bytecode.Proofs.Machine.Stack

/-!
# The stack as a list of cells

A stack stands for the list of its cells in use, bottom first. `Operation.onList` says what an
operation does with such a list: it yields an answer and a list, or nothing if the operation asks
for a cell that does not exist or for the value of a call record. Whatever it yields is what the
stack yields, provided that there is room, `Operation.action_of_onList`. Neither the size of the
array nor what is left in it above the stack pointer has any bearing on that.
-/

namespace Bytecode

namespace Cell

/-- The value of a cell that is no call record. -/
def value? : Cell → Option Value
  | .value v => some v
  | .call _ => none

theorem value?_eq_some_iff {cell : Cell} {v : Value} :
  cell.value? = some v ↔ cell = .value v
  := by
  cases cell with
  | value w | call info => simp [value?]

end Cell

namespace Stack

/-- What can be asked of a stack. -/
inductive Operation where
  | push (v : Value)
  | pushCall (info : CallInfo)
  | pop
  | peek (depth : Nat)
  | replace (depth : Nat) (v : Value)
  | get (index : Nat)
  | set (index : Nat) (v : Value)
  | top (count : Nat)
  | shrink (count : Nat)
  | truncate (sp : Nat)
  | reserve (needed : Nat)
  | callInfo (index : Nat)
  | roots

/-- What an operation yields. -/
inductive Answer where
  | done
  | value (v : Value)
  | values (vs : List Value)
  | record (info : Option CallInfo)
  | handles (hs : List Handle)

namespace Operation

def action : Operation → StackM Answer
  | .push v => (fun _ => .done) <$> Stack.push v
  | .pushCall info => (fun _ => .done) <$> Stack.pushCall info
  | .pop => .value <$> Stack.pop
  | .peek depth => .value <$> Stack.peek depth
  | .replace depth v => (fun _ => .done) <$> Stack.replace depth v
  | .get index => .value <$> Stack.get index
  | .set index v => (fun _ => .done) <$> Stack.set index v
  | .top count => .values <$> Stack.top count
  | .shrink count => (fun _ => .done) <$> Stack.shrink count
  | .truncate sp => (fun _ => .done) <$> Stack.truncate sp
  | .reserve needed => (fun _ => .done) <$> Stack.reserve needed
  | .callInfo index => fun s => .ok (.record (s.callInfo? index)) s
  | .roots => .handles <$> Stack.tryRoots

/-- What an operation does with a list of cells. The top one is the last. -/
def onList : Operation → List Cell → Option (Answer × List Cell)
  | .push v, cs => some (.done, cs ++ [.value v])
  | .pushCall info, cs => some (.done, cs ++ [.call info])
  | .pop, cs => (cs.getLast?.bind Cell.value?).map fun v => (.value v, cs.dropLast)
  | .peek depth, cs => (cs.reverse[depth]?.bind Cell.value?).map fun v => (.value v, cs)
  | .replace depth v, cs =>
    if depth < cs.length then some (.done, cs.set (cs.length - 1 - depth) (.value v)) else none
  | .get index, cs => (cs[index]?.bind Cell.value?).map fun v => (.value v, cs)
  | .set index v, cs => if index < cs.length then some (.done, cs.set index (.value v)) else none
  | .top count, cs =>
    if count ≤ cs.length then
      some (.values ((cs.drop (cs.length - count)).map Cell.valueOrZero), cs)
    else none
  | .shrink count, cs =>
    if count ≤ cs.length then some (.done, cs.take (cs.length - count)) else none
  | .truncate sp, cs => if sp ≤ cs.length then some (.done, cs.take sp) else none
  | .reserve _, cs => some (.done, cs)
  | .callInfo index, cs => cs[index]?.map fun cell => (.record cell.info?, cs)
  | .roots, cs => some (.handles (cs.filterMap Cell.handle?), cs)

/-- The number of cells for which an operation needs room, if it needs any. -/
def needs? : Operation → Option Nat
  | .push _ | .pushCall _ => some 1
  | .reserve needed => some needed
  | _ => none

/-- There is no room for what the operation adds, and none can be made. -/
def overflows (op : Operation) (s : Stack) : Bool :=
  match op.needs?.map fun needed => Stack.reserve needed s with
  | some (.error _ _) => true
  | _ => false

theorem exists_reserve {op : Operation} {s : Stack} {needed : Nat} (room : op.overflows s = false)
    (needs : op.needs? = some needed) :
  ∃ s₁, Stack.reserve needed s = .ok () s₁
  := by
  unfold overflows at room
  rw [needs] at room
  cases made : Stack.reserve needed s with
  | ok _ s₁ => exact ⟨s₁, rfl⟩
  | error trap s₁ => simp [made] at room

end Operation

/-- The cells in use are these. -/
structure Shows (cs : List Cell) (s : Stack) : Prop where
  live_eq : s.live = cs
  fits : s.sp ≤ s.cells.size

theorem getElem?_live (s : Stack) (k : Nat) :
  s.live[k]? = if k < s.sp then s.cells[k]? else none
  := by
  rw [live, List.getElem?_take, Array.getElem?_toList]

namespace Shows

variable {cs : List Cell} {s s' : Stack}

theorem length_eq (shown : s.Shows cs) :
  cs.length = s.sp
  := by
  rw [← shown.live_eq, live, List.length_take, Array.length_toList, Nat.min_eq_left shown.fits]

theorem cell (shown : s.Shows cs) {k : Nat} (inside : k < cs.length) :
  s.cells[k]? = cs[k]?
  := by
  rw [← shown.live_eq, getElem?_live, if_pos (shown.length_eq ▸ inside)]

/-- The stack shows the cells that are in the array up to the stack pointer. -/
theorem of_cells (length : cs.length = s.sp) (fits : s.sp ≤ s.cells.size)
    (cell : ∀ k, k < cs.length → s.cells[k]? = cs[k]?) :
  s.Shows cs
  := by
  refine ⟨?_, fits⟩
  apply List.ext_getElem?
  intro k
  rw [getElem?_live]
  split
  · next inside => exact cell k (by omega)
  · next outside => rw [List.getElem?_eq_none (by omega)]

theorem pushed {c : Cell} (shown : s.Shows cs) (pushed : Pushed c s s') :
  s'.Shows (cs ++ [c])
  := by
  have length := shown.length_eq
  have fits := shown.fits
  obtain ⟨sp, -, room, size, top, others⟩ := pushed
  apply of_cells (by simp [length, sp]) (by omega)
  intro k inside
  rw [List.length_append, List.length_singleton] at inside
  by_cases last : k = s.sp
  · rw [last, top, ← length, List.getElem?_concat_length]
  · rw [others k last (by omega), List.getElem?_append_left (by omega), shown.cell (by omega)]

theorem reserved {needed : Nat} (shown : s.Shows cs) (reserved : Reserved needed s s') :
  s'.Shows cs
  := by
  have length := shown.length_eq
  have fits := shown.fits
  obtain ⟨sp, -, room, size, cells⟩ := reserved
  apply of_cells (by omega) (by omega)
  intro k inside
  rw [cells k (by omega), shown.cell inside]

theorem written {index : Nat} {c : Cell} (shown : s.Shows cs) :
  ({ s with cells := s.cells.setIfInBounds index c } : Stack).Shows (cs.set index c)
  := by
  have length := shown.length_eq
  have fits := shown.fits
  apply of_cells
  · rw [List.length_set, length]
  · rw [Array.size_setIfInBounds]
    exact fits
  · intro k inside
    rw [List.length_set] at inside
    rw [Array.getElem?_setIfInBounds, List.getElem?_set, shown.cell inside]
    by_cases same : index = k
    · rw [if_pos same, if_pos same, if_pos (by omega), if_pos (by omega)]
    · rw [if_neg same, if_neg same]

theorem truncate (shown : s.Shows cs) {sp : Nat} (fewer : sp ≤ cs.length) :
  ({ s with sp } : Stack).Shows (cs.take sp)
  := by
  have length := shown.length_eq
  have fits := shown.fits
  apply of_cells
  · rw [List.length_take, Nat.min_eq_left fewer]
  · exact Nat.le_trans fewer (length ▸ fits)
  · intro k inside
    rw [List.length_take] at inside
    rw [List.getElem?_take_of_lt (by omega), ← shown.cell (by omega)]

end Shows

/-! ### Operations -/

variable {cs cs' : List Cell} {s : Stack}

namespace Shows

section

variable (shown : s.Shows cs)
include shown

theorem push (cell : Cell) {s₁ : Stack} (room : reserve 1 s = .ok () s₁) :
  ∃ s', pushCell cell s = .ok () s' ∧ s'.Shows (cs ++ [cell])
  := by
  obtain ⟨s', pushed⟩ := exists_pushCell shown.fits cell room
  exact ⟨s', pushed, shown.pushed (pushCell_eq_ok pushed)⟩

theorem value {index : Nat} {v : Value} (found : cs[index]?.bind Cell.value? = some v) :
  s.cells[index]? = some (.value v)
  := by
  obtain ⟨cell, listed, isValue⟩ := Option.bind_eq_some_iff.1 found
  obtain rfl := Cell.value?_eq_some_iff.1 isValue
  rw [shown.cell (List.getElem?_eq_some_iff.1 listed).1, listed]

theorem set {index : Nat} (inside : index < cs.length) (v : Value) :
  ∃ s', Stack.set index v s = .ok () s' ∧ s'.Shows (cs.set index (.value v))
  := by
  have length := shown.length_eq
  have fits := shown.fits
  exact ⟨_, set_eq (by omega), shown.written⟩

theorem fromTop {depth : Nat} (inside : depth < cs.length) :
  Stack.fromTop depth s = .ok (cs.length - 1 - depth) s
  := by
  rw [shown.length_eq] at inside ⊢
  exact if_pos inside

theorem shrink {count : Nat} (enough : count ≤ cs.length) :
  Stack.shrink count s = .ok () (s.lowered count)
    ∧ (s.lowered count).Shows (cs.take (cs.length - count))
  := by
  have length := shown.length_eq
  refine ⟨shrink_eq (by omega), ?_⟩
  unfold Stack.lowered
  rw [← length]
  exact shown.truncate (Nat.sub_le _ _)

theorem pop {v : Value} (found : cs.getLast?.bind Cell.value? = some v) :
  Stack.pop s = .ok v (s.lowered 1) ∧ (s.lowered 1).Shows cs.dropLast
  := by
  have length := shown.length_eq
  rw [List.getLast?_eq_getElem?, length] at found
  have top := shown.value found
  have positive : 1 ≤ cs.length := by
    obtain ⟨cell, listed, -⟩ := Option.bind_eq_some_iff.1 found
    have inside := (List.getElem?_eq_some_iff.1 listed).1
    omega
  obtain ⟨shrunk, shown'⟩ := shown.shrink positive
  rw [← List.dropLast_eq_take] at shown'
  refine ⟨?_, shown'⟩
  unfold Stack.pop
  rw [bind_of_ok shrunk]
  -- The value is read from the cell just above those in use.
  exact get_of_value top

theorem top {count : Nat} (enough : count ≤ cs.length) :
  Stack.top count s = .ok ((cs.drop (cs.length - count)).map Cell.valueOrZero) s
  := by
  have length := shown.length_eq
  have extracted : (s.cells.extract (s.sp - count) s.sp).toList = cs.drop (cs.length - count) := by
    rw [← shown.live_eq, live, Array.toList_extract, List.extract_eq_take_drop, List.drop_take]
    rw [← live, shown.live_eq, length]
  unfold Stack.top
  rw [if_pos ⟨by omega, shown.fits⟩, extracted]

end

end Shows

/-- An operation does with a stack what it does with the cells in use, if there is room. -/
theorem Operation.action_of_onList {op : Operation} {answer : Answer} (shown : s.Shows cs)
    (room : op.overflows s = false) (modelled : op.onList cs = some (answer, cs')) :
  ∃ s', op.action s = .ok answer s' ∧ s'.Shows cs'
  := by
  cases op with
  | push v =>
    cases modelled
    obtain ⟨s₁, made⟩ := exists_reserve room rfl
    obtain ⟨s', pushed, shown'⟩ := shown.push (.value v) made
    exact ⟨s', map_of_ok pushed, shown'⟩
  | pushCall info =>
    cases modelled
    obtain ⟨s₁, made⟩ := exists_reserve room rfl
    obtain ⟨s', pushed, shown'⟩ := shown.push (.call info) made
    exact ⟨s', map_of_ok pushed, shown'⟩
  | pop =>
    obtain ⟨v, found, same⟩ := Option.map_eq_some_iff.1 modelled
    cases same
    obtain ⟨popped, shown'⟩ := shown.pop found
    exact ⟨_, map_of_ok popped, shown'⟩
  | peek depth =>
    obtain ⟨v, found, same⟩ := Option.map_eq_some_iff.1 modelled
    cases same
    have inside : depth < cs.length := by
      obtain ⟨cell, listed, -⟩ := Option.bind_eq_some_iff.1 found
      simpa using (List.getElem?_eq_some_iff.1 listed).1
    rw [List.getElem?_reverse inside] at found
    have peeked : Stack.peek depth s = .ok v s :=
      (bind_of_ok (shown.fromTop inside) _).trans (get_of_value (shown.value found))
    exact ⟨s, map_of_ok peeked, shown⟩
  | replace depth v =>
    obtain ⟨inside, same⟩ := Option.ite_none_right_eq_some.1 modelled
    cases same
    have below : cs.length - 1 - depth < cs.length := by omega
    obtain ⟨s', written, shown'⟩ := shown.set below v
    have replaced : Stack.replace depth v s = .ok () s' :=
      (bind_of_ok (shown.fromTop inside) _).trans written
    exact ⟨s', map_of_ok replaced, shown'⟩
  | get index =>
    obtain ⟨v, found, same⟩ := Option.map_eq_some_iff.1 modelled
    cases same
    exact ⟨s, map_of_ok (get_of_value (shown.value found)), shown⟩
  | set index v =>
    obtain ⟨inside, same⟩ := Option.ite_none_right_eq_some.1 modelled
    cases same
    obtain ⟨s', written, shown'⟩ := shown.set inside v
    exact ⟨s', map_of_ok written, shown'⟩
  | top count =>
    obtain ⟨enough, same⟩ := Option.ite_none_right_eq_some.1 modelled
    cases same
    exact ⟨s, map_of_ok (shown.top enough), shown⟩
  | shrink count =>
    obtain ⟨enough, same⟩ := Option.ite_none_right_eq_some.1 modelled
    cases same
    obtain ⟨shrunk, shown'⟩ := shown.shrink enough
    exact ⟨_, map_of_ok shrunk, shown'⟩
  | truncate sp =>
    obtain ⟨fewer, same⟩ := Option.ite_none_right_eq_some.1 modelled
    cases same
    exact ⟨_, map_of_ok rfl, shown.truncate fewer⟩
  | reserve needed =>
    cases modelled
    obtain ⟨s₁, made⟩ := exists_reserve room rfl
    exact ⟨s₁, map_of_ok made, shown.reserved (reserve_eq_ok made)⟩
  | callInfo index =>
    obtain ⟨cell, listed, same⟩ := Option.map_eq_some_iff.1 modelled
    cases same
    have found : s.cells[index]? = some cell := by
      rw [shown.cell (List.getElem?_eq_some_iff.1 listed).1, listed]
    have record : s.callInfo? index = cell.info? := by
      unfold callInfo?
      rw [found]
      cases cell with
      | value v => rfl
      | call info => rfl
    rw [← record]
    exact ⟨s, rfl, shown⟩
  | roots =>
    cases modelled
    have listed : tryRoots s = .ok (cs.filterMap Cell.handle?) s := by
      unfold tryRoots Stack.roots
      rw [if_pos shown.fits, shown.live_eq]
    exact ⟨s, map_of_ok listed, shown⟩

/-! ### Sequences of operations -/

namespace Operation

/-- Carry out operations one after the other. -/
def run : List Operation → StackM (List Answer)
  | [] => pure []
  | op :: rest => do
    let answer ← op.action
    let answers ← run rest
    return answer :: answers

/-- Carry out operations on a list of cells. -/
def runOnList : List Operation → List Cell → Option (List Answer × List Cell)
  | [], cs => some ([], cs)
  | op :: rest, cs => do
    let (answer, cs) ← op.onList cs
    let (answers, cs) ← runOnList rest cs
    return (answer :: answers, cs)

/-- No operation overflows where it is carried out. -/
def roomy : List Operation → Stack → Bool
  | [], _ => true
  | op :: rest, s =>
    !op.overflows s && match op.action s with
      | .ok _ s' => roomy rest s'
      | .error _ _ => true

theorem run_of_runOnList {ops : List Operation} {answers : List Answer} (shown : s.Shows cs)
    (room : roomy ops s) (modelled : runOnList ops cs = some (answers, cs')) :
  ∃ s', run ops s = .ok answers s' ∧ s'.Shows cs'
  := by
  -- On the operations; each leaves a stack that shows what its model leaves.
  induction ops generalizing cs s answers with
  | nil =>
    cases modelled
    exact ⟨s, rfl, shown⟩
  | cons op rest ih =>
    rw [roomy, Bool.and_eq_true, Bool.not_eq_true_eq_eq_false] at room
    obtain ⟨here, later⟩ := room
    obtain ⟨⟨answer, cs₁⟩, first, modelled₁⟩ := Option.bind_eq_some_iff.1 modelled
    obtain ⟨⟨answers₁, cs₂⟩, others, same⟩ := Option.bind_eq_some_iff.1 modelled₁
    cases same
    obtain ⟨s₁, acted, shown₁⟩ := action_of_onList shown here first
    rw [acted] at later
    obtain ⟨s₂, ran, shown₂⟩ := ih shown₁ later others
    refine ⟨s₂, ?_, shown₂⟩
    rw [run, bind_of_ok acted, bind_of_ok ran]
    rfl

end Operation

end Stack

end Bytecode
