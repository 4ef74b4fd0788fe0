import Bytecode.Error
import Bytecode.Value

/-!
# The cell stack

All frames of a run lie in one array of cells. A frame has its parameters, then a call record,
then its locals and operands; the call record is the only cell that is no value. The stack
pointer `sp` counts the cells in use. Cells above it keep what they last held, so that reading
them is possible, though only broken code does.

The array grows by doubling, up to `limit` cells. However large the limit is, an array of
`unaddressable` cells cannot be made.
-/

namespace Bytecode

/-- Who goes on when a frame returns. -/
inductive Caller where
  | topLevel
  /-- The function with the given index. -/
  | function (index : Nat)
  /-- The host program; the run ends. -/
  | host
  deriving DecidableEq, Repr, Inhabited

/-- Where the caller of a frame goes on. -/
structure CallInfo where
  caller : Caller
  pc : Nat
  base : Nat
  deriving DecidableEq, Repr, Inhabited

inductive Cell where
  | value (v : Value)
  | call (info : CallInfo)
  deriving DecidableEq, Repr

namespace Cell

instance : Inhabited Cell := ⟨.value .zero⟩

/-- The value of a cell; a call record counts as zero. -/
def valueOrZero : Cell → Value
  | .value v => v
  | .call _ => .zero

def handle? : Cell → Option Handle
  | .value v => v.handle?
  | .call _ => none

end Cell

structure Stack where
  cells : Array Cell
  sp : Nat
  limit : Nat
  deriving Repr, Inhabited

/-- An action on a stack. It crashes when it is asked for a cell that does not exist or for the
value of a call record. -/
abbrev StackM := EStateM Trap Stack

namespace Stack

/-- The least number of cells that cannot be addressed: a cell takes sixteen bytes, and an
array less than `2 ^ 63`. -/
def unaddressable : Nat := 1 <<< 59

/-- An empty stack with room for at least one cell. -/
def new (initial limit : Nat) : Stack := ⟨Array.replicate (max initial 1) default, 0, limit⟩

/-- As `new`, for a size that may be too large. -/
def tryNew (initial limit : Nat) : Option Stack :=
  if initial < unaddressable then some (new initial limit) else none

def capacity (s : Stack) : Nat := s.cells.size

/-- The cells in use, bottom first. -/
def live (s : Stack) : List Cell := s.cells.toList.take s.sp

/-- Enlarge the array to a given size. -/
def grow (s : Stack) (size : Nat) : Stack :=
  { s with cells := s.cells ++ Array.replicate (size - s.cells.size) default }

/-- The size to which the array grows when so many cells are required. -/
def grownSize (s : Stack) (required : Nat) : Nat :=
  min (max (2 * s.cells.size) required) s.limit

/-- Make room for so many more cells. -/
def reserve (needed : Nat) : StackM Unit :=
  fun s =>
    let required := s.sp + needed
    if 1 <<< 64 ≤ required then .error .crash s
    else if required ≤ s.cells.size then .ok () s
    else if s.limit < required then .error (.error (.stackOverflow s.limit)) s
    else if unaddressable ≤ s.grownSize required then .error .crash s
    else .ok () (s.grow (s.grownSize required))

/-- Put a cell at the stack pointer, for which there must be room. -/
def place (cell : Cell) : StackM Unit :=
  fun s =>
    if h : s.sp < s.cells.size then
      .ok () { s with cells := s.cells.set s.sp cell, sp := s.sp + 1 }
    else .error .crash s

/-- Push a cell, for which room is made if all cells are in use. -/
def pushCell (cell : Cell) : StackM Unit :=
  fun s =>
    if s.sp = s.cells.size then
      match reserve 1 s with
      | .ok () s => place cell s
      | .error trap s => .error trap s
    else place cell s

def push (v : Value) : StackM Unit := pushCell (.value v)

def pushCall (info : CallInfo) : StackM Unit := pushCell (.call info)

/-- The value of the cell with the given index. -/
def get (index : Nat) : StackM Value :=
  fun s =>
    match s.cells[index]? with
    | some (.value v) => .ok v s
    | _ => .error .crash s

/-- Overwrite the cell with the given index. -/
def set (index : Nat) (v : Value) : StackM Unit :=
  fun s =>
    if h : index < s.cells.size then .ok () { s with cells := s.cells.set index (.value v) }
    else .error .crash s

/-- The index of the cell so many cells below the top one. -/
def fromTop (depth : Nat) : StackM Nat :=
  fun s => if depth < s.sp then .ok (s.sp - 1 - depth) s else .error .crash s

/-- The value so many cells below the top one. -/
def peek (depth : Nat) : StackM Value := do
  get (← fromTop depth)

/-- Overwrite the cell so many cells below the top one. -/
def replace (depth : Nat) (v : Value) : StackM Unit := do
  set (← fromTop depth) v

/-- Drop so many cells. -/
def shrink (count : Nat) : StackM Unit :=
  fun s => if count ≤ s.sp then .ok () { s with sp := s.sp - count } else .error .crash s

/-- Drop the top cell and yield its value. -/
def pop : StackM Value := do
  shrink 1
  get (← EStateM.get).sp

/-- The values of the top cells, the lowest first. A call record shows as zero. -/
def top (count : Nat) : StackM (List Value) :=
  fun s =>
    if count ≤ s.sp ∧ s.sp ≤ s.cells.size then
      .ok ((s.cells.extract (s.sp - count) s.sp).toList.map Cell.valueOrZero) s
    else .error .crash s

/-- Set the stack pointer. -/
def truncate (sp : Nat) : StackM Unit := fun s => .ok () { s with sp }

/-- The call record in the cell with the given index, in use or not. -/
def callInfo? (s : Stack) (index : Nat) : Option CallInfo :=
  match s.cells[index]? with
  | some (.call info) => some info
  | _ => none

/-- The objects referred to from cells in use, bottom first. -/
def roots (s : Stack) : List Handle := s.live.filterMap Cell.handle?

/-- As `roots`, for a stack pointer that may have been set beyond the array. -/
def tryRoots : StackM (List Handle) :=
  fun s => if s.sp ≤ s.cells.size then .ok s.roots s else .error .crash s

end Stack

end Bytecode
