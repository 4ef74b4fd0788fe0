import Mathlib
import Bytecode.Proofs.Stack.ListModel

/-!
# The stack as two parallel arrays

A run of cells can be lent out as plain values if values and call records are kept apart, in two
arrays side by side. Then every operation has to keep both in step: a value that is written erases
the record next to it, a record is put next to a zero, and what is dropped stays in both arrays
until it is overwritten. `Stack.planes` takes a stack apart in this way, and every operation on the
two arrays does what the operation on cells does, `tracks_act`. So the two arrays always have the
same size, and the value next to a call record is zero.
-/

namespace Bytecode

/-- Values and call records of a stack in two arrays. -/
structure Planes where
  values : Array Value
  infos : Array (Option CallInfo)
  sp : Nat
  limit : Nat

abbrev PlanesM := EStateM Trap Planes

namespace Planes

def new (initial limit : Nat) : Planes where
  values := Array.replicate (max initial 1) .zero
  infos := Array.replicate (max initial 1) none
  sp := 0
  limit := limit

/-- Cut an array down or fill it up to a size. -/
def resize {α : Type} (xs : Array α) (size : Nat) (filler : α) : Array α :=
  xs.take size ++ Array.replicate (size - xs.size) filler

/-- Make room for so many more cells. -/
def reserve (needed : Nat) : PlanesM Unit :=
  fun p =>
    let required := p.sp + needed
    let size := min (max (2 * p.values.size) required) p.limit
    if 1 <<< 64 ≤ required then .error .crash p
    else if required ≤ p.values.size then .ok () p
    else if p.limit < required then .error (.error (.stackOverflow p.limit)) p
    else if Stack.unaddressable ≤ size then .error .crash p
    else .ok () { p with
      values := resize p.values size .zero
      infos := resize p.infos size none }

/-- Write into both arrays. -/
def write (index : Nat) (v : Value) (info : Option CallInfo) : PlanesM Unit :=
  fun p =>
    if index < p.values.size ∧ index < p.infos.size then
      .ok () { p with
        values := p.values.setIfInBounds index v
        infos := p.infos.setIfInBounds index info }
    else .error .crash p

/-- Write at the stack pointer and raise it. -/
def place (v : Value) (info : Option CallInfo) : PlanesM Unit := do
  write (← get).sp v info
  modify fun p => { p with sp := p.sp + 1 }

/-- Put a value and what stands next to it on top. Room is made if all cells are in use. -/
def pushBoth (v : Value) (info : Option CallInfo) : PlanesM Unit :=
  fun p =>
    if p.sp = p.values.size then (reserve 1 >>= fun _ => place v info) p else place v info p

/-- The value with the given index, next to which there must be no call record. -/
def read (index : Nat) : PlanesM Value :=
  fun p =>
    match p.infos[index]?, p.values[index]? with
    | some none, some v => .ok v p
    | _, _ => .error .crash p

def fromTop (depth : Nat) : PlanesM Nat :=
  fun p => if depth < p.sp then .ok (p.sp - 1 - depth) p else .error .crash p

def shrink (count : Nat) : PlanesM Unit :=
  fun p => if count ≤ p.sp then .ok () { p with sp := p.sp - count } else .error .crash p

/-- The values of the top cells, whatever stands next to them. -/
def top (count : Nat) : PlanesM (List Value) :=
  fun p =>
    if count ≤ p.sp ∧ p.sp ≤ p.values.size then
      .ok (p.values.extract (p.sp - count) p.sp).toList p
    else .error .crash p

/-- The objects referred to from values in use with no call record next to them. -/
def roots : PlanesM (List Handle) :=
  fun p =>
    if p.sp ≤ p.values.size ∧ p.sp ≤ p.infos.size then
      let pairs := (p.values.toList.take p.sp).zip (p.infos.toList.take p.sp)
      .ok ((pairs.filter fun pair => pair.2.isNone).filterMap fun pair => pair.1.handle?) p
    else .error .crash p

/-- Carry out an operation on the two arrays. -/
def act : Stack.Operation → PlanesM Stack.Answer
  | .push v => (fun _ => .done) <$> pushBoth v none
  | .pushCall info => (fun _ => .done) <$> pushBoth .zero (some info)
  | .pop => .value <$> do
    shrink 1
    read (← get).sp
  | .peek depth => .value <$> do read (← fromTop depth)
  | .replace depth v => (fun _ => .done) <$> do write (← fromTop depth) v none
  | .get index => .value <$> read index
  | .set index v => (fun _ => .done) <$> write index v none
  | .top count => .values <$> top count
  | .shrink count => (fun _ => .done) <$> shrink count
  | .truncate sp => fun p => .ok .done { p with sp }
  | .reserve needed => (fun _ => .done) <$> reserve needed
  | .callInfo index => fun p => .ok (.record (p.infos[index]?).join) p
  | .roots => .handles <$> roots

/-- Carry out operations one after the other. -/
def run : List Stack.Operation → PlanesM (List Stack.Answer)
  | [] => pure []
  | op :: rest => do
    let answer ← act op
    let answers ← run rest
    return answer :: answers

/-- The arrays have the same size and hold the cells in use, and the value next to a call record,
in use or not, is zero. -/
structure Parallel (p : Planes) : Prop where
  size_eq : p.infos.size = p.values.size
  sp_le : p.sp ≤ p.values.size
  zero : ∀ (k : Nat) (info : CallInfo), p.infos[k]? = some (some info) →
    p.values[k]? = some Value.zero

end Planes

/-! ### Taking a stack apart -/

namespace Stack

/-- The values and the call records of the cells. -/
def planes (s : Stack) : Planes where
  values := s.cells.map Cell.valueOrZero
  infos := s.cells.map Cell.info?
  sp := s.sp
  limit := s.limit

@[simp] theorem planes_sp (s : Stack) :
  s.planes.sp = s.sp
  := rfl

@[simp] theorem planes_limit (s : Stack) :
  s.planes.limit = s.limit
  := rfl

@[simp] theorem size_values_planes (s : Stack) :
  s.planes.values.size = s.cells.size
  := Array.size_map

@[simp] theorem size_infos_planes (s : Stack) :
  s.planes.infos.size = s.cells.size
  := Array.size_map

theorem planes_new (initial limit : Nat) :
  (new initial limit).planes = Planes.new initial limit
  := by
  simp only [planes, new, Planes.new, Array.map_replicate]
  rfl

theorem parallel_planes {s : Stack} (fits : s.sp ≤ s.cells.size) :
  s.planes.Parallel
  where
  size_eq := by simp
  sp_le := by simpa using fits
  zero k info found := by
    simp only [planes, Array.getElem?_map, Option.map_eq_some_iff] at found ⊢
    obtain ⟨cell, listed, record⟩ := found
    refine ⟨cell, listed, ?_⟩
    cases cell with
    | value v => cases record
    | call _ => rfl

theorem planes_write (s : Stack) (index : Nat) (cell : Cell) :
  ({ s with cells := s.cells.setIfInBounds index cell } : Stack).planes
    = { s.planes with
        values := s.planes.values.setIfInBounds index cell.valueOrZero
        infos := s.planes.infos.setIfInBounds index cell.info? }
  := by
  simp only [planes, Array.map_setIfInBounds]

theorem planes_grow {s : Stack} {size : Nat} (larger : s.cells.size ≤ size) :
  (s.grow size).planes
    = { s.planes with
        values := Planes.resize s.planes.values size .zero
        infos := Planes.resize s.planes.infos size none }
  := by
  have kept {α : Type} (f : Cell → α) : (s.cells.map f).take size = s.cells.map f :=
    Array.extract_eq_self_of_le (by simpa using larger)
  simp only [planes, grow, Planes.resize, Array.map_append, Array.map_replicate, Array.size_map,
    kept]
  rfl

end Stack

/-- The outcome of an action on a stack, on the two arrays. -/
def onPlanes {α : Type} : EStateM.Result Trap Stack α → EStateM.Result Trap Planes α
  | .ok a s => .ok a s.planes
  | .error trap s => .error trap s.planes

/-- The second action does with the two arrays of a stack what the first one does with the stack. -/
def Tracks {α : Type} (x : StackM α) (y : PlanesM α) : Prop := ∀ s, y s.planes = onPlanes (x s)

namespace Tracks

variable {α β : Type}

theorem bind {x : StackM α} {y : PlanesM α} {f : α → StackM β} {g : α → PlanesM β}
    (first : Tracks x y) (second : ∀ a, Tracks (f a) (g a)) :
  Tracks (x >>= f) (y >>= g)
  := by
  intro s
  have tracked := first s
  cases run : x s with
  | ok a s₁ =>
    rw [run] at tracked
    rw [bind_of_ok run, bind_of_ok tracked, second a s₁]
  | error trap s₁ =>
    rw [run] at tracked
    rw [bind_of_error run, bind_of_error tracked]
    rfl

theorem map {x : StackM α} {y : PlanesM α} (tracks : Tracks x y) (f : α → β) :
  Tracks (f <$> x) (f <$> y)
  := by
  rw [map_eq_pure_bind, map_eq_pure_bind]
  exact tracks.bind fun a s => rfl

theorem reserve (needed : Nat) :
  Tracks (Stack.reserve needed) (Planes.reserve needed)
  := by
  intro s
  unfold Stack.reserve Planes.reserve Stack.grownSize
  simp only [Stack.planes_sp, Stack.planes_limit, Stack.size_values_planes]
  split
  · rfl
  · split
    · rfl
    · split
      · rfl
      · split
        · rfl
        · rw [onPlanes, Stack.planes_grow (by omega)]
          rfl

theorem set (index : Nat) (v : Value) :
  Tracks (Stack.set index v) (Planes.write index v none)
  := by
  intro s
  by_cases inside : index < s.cells.size
  · rw [Stack.set_eq inside, onPlanes, Stack.planes_write]
    exact if_pos (by simpa using inside)
  · unfold Stack.set
    rw [dif_neg inside]
    exact if_neg (by simpa using inside)

theorem place (cell : Cell) :
  Tracks (Stack.place cell) (Planes.place cell.valueOrZero cell.info?)
  := by
  intro s
  by_cases room : s.sp < s.cells.size
  · have written : Planes.write s.sp cell.valueOrZero cell.info? s.planes = _ :=
      if_pos (by simpa using room)
    rw [Stack.place_eq room, Planes.place, bind_of_ok (get_eq _), Stack.planes_sp,
      bind_of_ok written, ← Stack.planes_write]
    rfl
  · have refused : Planes.write s.sp cell.valueOrZero cell.info? s.planes = _ :=
      if_neg (by simpa using room)
    rw [Planes.place, bind_of_ok (get_eq _), Stack.planes_sp, bind_of_error refused]
    unfold Stack.place
    rw [dif_neg room]
    rfl

theorem pushCell (cell : Cell) :
  Tracks (Stack.pushCell cell) (Planes.pushBoth cell.valueOrZero cell.info?)
  := by
  intro s
  unfold Stack.pushCell Planes.pushBoth
  simp only [Stack.planes_sp, Stack.size_values_planes]
  split
  · -- The array is full; what remains is a reservation, then the write.
    rw [(reserve 1).bind (fun _ => place cell) s]
    cases made : Stack.reserve 1 s with
    | ok _ s₁ => rw [bind_of_ok made]
    | error trap s₁ => rw [bind_of_error made]
  · exact place cell s

theorem get (index : Nat) :
  Tracks (Stack.get index) (Planes.read index)
  := by
  intro s
  unfold Stack.get Planes.read
  simp only [Stack.planes, Array.getElem?_map]
  cases s.cells[index]? with
  | none => rfl
  | some cell =>
    cases cell with
    | value v => rfl
    | call info => rfl

theorem fromTop (depth : Nat) :
  Tracks (Stack.fromTop depth) (Planes.fromTop depth)
  := by
  intro s
  unfold Stack.fromTop
  rw [apply_ite onPlanes]
  rfl

theorem shrink (count : Nat) :
  Tracks (Stack.shrink count) (Planes.shrink count)
  := by
  intro s
  unfold Stack.shrink
  rw [apply_ite onPlanes]
  rfl

theorem top (count : Nat) :
  Tracks (Stack.top count) (Planes.top count)
  := by
  intro s
  have extracted : (s.planes.values.extract (s.sp - count) s.sp).toList
      = (s.cells.extract (s.sp - count) s.sp).toList.map Cell.valueOrZero := by
    simp only [Stack.planes, Array.toList_extract, Array.toList_map, List.extract_eq_take_drop,
      List.map_take, List.map_drop]
  unfold Stack.top Planes.top
  simp only [Stack.planes_sp, Stack.size_values_planes, extracted]
  split
  · rfl
  · rfl

theorem tryRoots :
  Tracks Stack.tryRoots Planes.roots
  := by
  intro s
  -- A call record is left out, and its zero would refer to nothing.
  have listed (cs : List Cell) : (((cs.map Cell.valueOrZero).zip (cs.map Cell.info?)).filter
      fun pair => pair.2.isNone).filterMap (fun pair => pair.1.handle?)
      = cs.filterMap Cell.handle? := by
    induction cs with
    | nil => rfl
    | cons cell rest ih =>
      cases cell with
      | value v => simp [Cell.info?, Cell.valueOrZero, Cell.handle?, List.filterMap_cons, ih]
      | call info => simp [Cell.info?, Cell.handle?, List.filterMap_cons, ih]
  unfold Stack.tryRoots Planes.roots
  simp only [Stack.planes_sp, Stack.size_values_planes, Stack.size_infos_planes, and_self]
  split
  · simp only [Stack.planes, Array.toList_map, ← List.map_take, listed]
    rfl
  · rfl

end Tracks

/-- Every operation on the two arrays does what it does with the cells. -/
theorem tracks_act (op : Stack.Operation) :
  Tracks op.action (Planes.act op)
  := by
  cases op with
  | push v => exact (Tracks.pushCell (.value v)).map _
  | pushCall info => exact (Tracks.pushCell (.call info)).map _
  | pop =>
    apply Tracks.map
    exact (Tracks.shrink 1).bind fun _ s => Tracks.get s.sp s
  | peek depth => exact ((Tracks.fromTop depth).bind Tracks.get).map _
  | replace depth v => exact ((Tracks.fromTop depth).bind fun index => Tracks.set index v).map _
  | get index => exact (Tracks.get index).map _
  | set index v => exact (Tracks.set index v).map _
  | top count => exact (Tracks.top count).map _
  | shrink count => exact (Tracks.shrink count).map _
  | truncate sp => exact fun _ => rfl
  | reserve needed => exact (Tracks.reserve needed).map _
  | callInfo index =>
    intro s
    have record : (s.planes.infos[index]?).join = s.callInfo? index := by
      unfold Stack.callInfo?
      simp only [Stack.planes, Array.getElem?_map]
      cases s.cells[index]? with
      | none => rfl
      | some cell =>
        cases cell with
        | value v => rfl
        | call info => rfl
    exact congrArg (fun info => EStateM.Result.ok (Stack.Answer.record info) s.planes) record
  | roots => exact Tracks.tryRoots.map _

theorem tracks_run (ops : List Stack.Operation) :
  Tracks (Stack.Operation.run ops) (Planes.run ops)
  := by
  induction ops with
  | nil => exact fun _ => rfl
  | cons op rest ih =>
    exact (tracks_act op).bind fun answer => ih.bind fun answers s => rfl

namespace Stack

theorem shows_new (initial limit : Nat) :
  (new initial limit).Shows []
  := ⟨rfl, Nat.zero_le _⟩

/-- Operations on a new stack yield what they yield on the empty list of cells, and the stack then
shows the cells that are in the list then, provided that none of them overflows. They yield the same
on two parallel arrays, which remain parallel. -/
theorem run_refines {initial limit : Nat} {s : Stack} {ops : List Operation}
    {answers : List Answer} {cs : List Cell} (made : tryNew initial limit = some s)
    (room : Operation.roomy ops s) (modelled : Operation.runOnList ops [] = some (answers, cs)) :
  ∃ s', Operation.run ops s = .ok answers s' ∧ s'.live = cs
    ∧ Planes.run ops (Planes.new initial limit) = .ok answers s'.planes ∧ s'.planes.Parallel
  := by
  obtain ⟨-, same⟩ := Option.ite_none_right_eq_some.1 made
  cases same
  obtain ⟨s', ran, shown⟩ := Operation.run_of_runOnList (shows_new initial limit) room modelled
  refine ⟨s', ran, shown.live_eq, ?_, parallel_planes shown.fits⟩
  rw [← planes_new, tracks_run ops, ran]
  rfl

/-- A call with one argument, from a stack of one cell that may grow to four. The frame is dropped,
and a reference is then put where its call record was left. -/
def callAndDrop : List Operation := [
  .push (.word 7), .pushCall ⟨.topLevel, 3, 0⟩, .push (.ref ⟨5⟩), .top 2, .callInfo 1, .roots,
  .truncate 1, .push (.ref ⟨9⟩), .callInfo 1, .peek 0, .roots, .reserve 2, .replace 1 .null, .pop,
  .pushCall ⟨.host, 4, 1⟩, .set 1 (.word 8), .get 1, .shrink 1]

/-- The record shows as a zero below the reference, and not at all once it has been overwritten. -/
def callAndDropAnswers : List Answer := [
  .done, .done, .done, .values [.zero, .ref ⟨5⟩], .record (some ⟨.topLevel, 3, 0⟩),
  .handles [⟨5⟩], .done, .done, .record none, .value (.ref ⟨9⟩), .handles [⟨9⟩], .done, .done,
  .value (.ref ⟨9⟩), .done, .done, .value (.word 8), .done]

theorem run_refines_callAndDrop :
  ∃ s', Operation.run callAndDrop (new 1 4) = .ok callAndDropAnswers s'
    ∧ s'.live = [.value .null]
    ∧ Planes.run callAndDrop (Planes.new 1 4) = .ok callAndDropAnswers s'.planes
    ∧ s'.planes.Parallel
  := run_refines rfl (by decide) rfl

end Stack

end Bytecode
