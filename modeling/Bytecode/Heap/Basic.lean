import Bytecode.Error
import Bytecode.Value

/-!
# The heap

Objects lie in the slots of a growing array, and a handle is the index of a slot. A new object
takes the slot that was freed last, or else a new one at the end.
-/

namespace Bytecode

/-- An object on the heap. -/
inductive Object where
  | string (text : String)
  | ints (items : Array Int64)
  | doubles (items : Array Double)
  | refs (items : Array (Option Handle))
  /-- An instance of a class with the values of its flattened fields. -/
  | inst (class_ : UInt16) (fields : Array Value)
  deriving DecidableEq, Repr, Inhabited

namespace Object

def kindName : Object → String
  | .string _ => "string"
  | .ints _ => "int[]"
  | .doubles _ => "double[]"
  | .refs _ => "object[]"
  | .inst _ _ => "instance"

/-- The length of an array. -/
def arrayLength? : Object → Option Nat
  | .ints items => some items.size
  | .doubles items => some items.size
  | .refs items => some items.size
  | _ => none

def text? : Object → Option String
  | .string text => some text
  | _ => none

/-- The element of an array with the given index. -/
def element? : Object → Nat → Option Value
  | .ints items, i => items[i]?.map .ofInt
  | .doubles items, i => items[i]?.map .ofDouble
  | .refs items, i => items[i]?.map .ofHandle?
  | _, _ => none

/-- Overwrite an element of an array, which takes from the value what it holds. -/
def setElement (i : Nat) (v : Value) : Object → Object
  | .ints items => .ints (items.setIfInBounds i v.toInt)
  | .doubles items => .doubles (items.setIfInBounds i v.toDouble)
  | .refs items => .refs (items.setIfInBounds i v.handle?)
  | other => other

/-- Overwrite a field of an instance. -/
def setField (i : Nat) (v : Value) : Object → Object
  | .inst class_ fields => .inst class_ (fields.setIfInBounds i v)
  | other => other

end Object

/-- Counts of what the collector has done. -/
structure GcStats where
  cycles : Nat
  allocated : Nat
  freed : Nat
  live : Nat
  threshold : Nat
  deriving DecidableEq, Repr

/-- An object in its slot. A collection marks the objects that it comes to. -/
structure Occupant where
  object : Object
  marked : Bool := false
  deriving DecidableEq, Repr, Inhabited

structure Heap where
  slots : Array (Option Occupant) := #[]
  /-- The free slots, the one freed last first. -/
  free : List Nat := []
  /-- The number of objects. -/
  live : Nat := 0
  /-- The number of objects above which a collection is due. -/
  threshold : Nat
  /-- What each collection adds to the threshold. -/
  increment : Nat
  /-- For each class, which of its fields hold references. -/
  masks : Array (List Bool) := #[]
  cycles : Nat := 0
  allocated : Nat := 0
  freed : Nat := 0
  deriving Repr, Inhabited

namespace Heap

def new (threshold increment : Nat) (masks : Array (List Bool)) : Heap :=
  { threshold, increment, masks }

/-- Allocate an object. -/
def alloc (object : Object) (h : Heap) : Handle × Heap :=
  match h.free with
  | index :: free =>
    (.ofIndex index,
      { h with
        slots := h.slots.setIfInBounds index (some { object })
        free
        live := h.live + 1
        allocated := h.allocated + 1 })
  | [] =>
    (.ofIndex h.slots.size,
      { h with
        slots := h.slots.push (some { object })
        live := h.live + 1
        allocated := h.allocated + 1 })

def allocString (text : String) (h : Heap) : Handle × Heap := h.alloc (.string text)

/-- What the slot with a handle holds, if it holds something. -/
def slot? (h : Heap) (handle : Handle) : Option Occupant := (h.slots[handle.index]?).join

/-- The object with a handle, if there is one. -/
def get? (h : Heap) (handle : Handle) : Option Object := (h.slot? handle).map (·.object)

def contains (h : Heap) (handle : Handle) : Bool := (h.get? handle).isSome

/-- Change the object with a handle in place. -/
def update (handle : Handle) (f : Object → Object) (h : Heap) : Heap :=
  { h with
    slots := h.slots.modify handle.index fun slot =>
      slot.map fun occupant => { occupant with object := f occupant.object } }

/-- The objects with the indices of their slots, in increasing order. -/
def objects (h : Heap) : List (Nat × Object) :=
  h.slots.toList.zipIdx.filterMap fun (slot, index) =>
    slot.map fun occupant => (index, occupant.object)

def needsCollection (h : Heap) : Bool := h.threshold < h.live

def stats (h : Heap) : GcStats := ⟨h.cycles, h.allocated, h.freed, h.live, h.threshold⟩

end Heap

end Bytecode
