import Mathlib
import Bytecode.Proofs.Generate.Program
import Bytecode.Proofs.Layout.Dispatch
import Bytecode.Proofs.Machine.Sessions
import Bytecode.Proofs.Native

/-!
# Members of instances

An instance has the fields of its class throughout a session, `Session.shaped`, whose native
functions do to the heap nothing but what programs do. A class has the members of its ancestors in
their slots, so the instructions on members find with an instance of a class whatever any ancestor
declares, `Machine.Dispatches`.
-/

namespace Bytecode

open Machine

/-! ### Shapes throughout a session -/

/-- The native function does to the heap only what programs do to it. -/
def Native.Shapely (exe : Executable) (n : Native) : Prop :=
  ∀ (args : List Value) (host : Host), host.heap.Derived exe (stateOf (n.run args host)).heap

namespace Native

variable {exe : Executable} {n : Native}

theorem shapely_written {f : String → String}
    (writes : ∀ args host, n.run args host = written f args host) :
  n.Shapely exe
  := by
  intro args host
  rw [writes]
  unfold written
  split
  · exact .refl
  · split
    · exact .refl
    · exact .refl

/-- The built-in native functions leave the heap alone. -/
theorem shapely_of_mem_defaults (listed : n ∈ Registry.defaults.natives) :
  n.Shapely exe
  := by
  simp only [Registry.defaults, List.mem_cons, List.not_mem_nil, or_false] at listed
  rcases listed with rfl | rfl | rfl | rfl
  · exact shapely_written print_run_eq
  · exact shapely_written println_run_eq
  · intro args host
    rw [sqrt_run_eq]
    split
    · exact .refl
    · split
      · exact .refl
      · exact .refl
  · exact fun _ _ => .refl

end Native

namespace Machine

variable {m m' : Machine}

/-- Instances have the fields of their classes, and native functions leave them so. -/
structure Shaped (exe : Executable) (m : Machine) : Prop where
  exe_eq : m.exe = exe
  heap : m.heap.Shaped exe
  natives : ∀ (index : Nat) (native : Native), (m.natives[index]?).join = some native →
    native.Shapely exe

/-- If instances had the fields of their classes, they still have them. -/
def KeepsShapes (exe : Executable) (m m' : Machine) : Prop := m.Shaped exe → m'.Shaped exe

namespace KeepsShapes

variable {exe : Executable}

instance : IsPreorder Machine (KeepsShapes exe) where
  refl _ := id
  trans _ _ _ first second := fun shaped => second (first shaped)

/-- The heap has become one that keeps the shapes. -/
theorem of_heap (same : m'.exe = m.exe) (natives : m'.natives = m.natives)
    (shaped : m.Shaped exe → m'.heap.Shaped exe) :
  KeepsShapes exe m m'
  := by
  intro before
  refine ⟨same.trans before.exe_eq, shaped before, ?_⟩
  rw [natives]
  exact before.natives

theorem law (exe : Executable) :
  Law (KeepsShapes exe)
  := by
  apply Law.of_stackless
  · exact fun m s r => of_heap rfl rfl fun shaped => shaped.heap
  · intro α x off derives m
    refine of_heap (off.exe m) (off.natives m) fun shaped => ?_
    have derived := derives.heap m
    rw [shaped.exe_eq] at derived
    exact derived.shaped shaped.heap
  · intro m
    rw [collect_eq]
    split
    · exact of_heap rfl rfl fun shaped => shaped.heap.reclaim m.roots
    · exact of_heap rfl rfl fun shaped => shaped.heap.reclaim m.roots
  · intro m index native args bound
    have off : OffStack (onHost (native.run args)) := .onHost _
    refine of_heap (off.exe m) (off.natives m) fun shaped => ?_
    have derived := shaped.natives index native bound args m.host
    have heap : (stateOf (onHost (native.run args) m)).heap
        = (stateOf (native.run args m.host)).heap := by
      rw [onHost_eq]
      cases native.run args m.host with
      | ok v host => rfl
      | error trap host => rfl
    rw [heap]
    exact derived.shaped shaped.heap

theorem link {registry : Registry} (shapely : ∀ n ∈ registry.natives, n.Shapely exe) :
  KeepsShapes exe m (Machine.link registry m).2
  := by
  intro before
  exact ⟨before.exe_eq, before.heap, link_bound before.natives shapely⟩

end KeepsShapes

/-- Sessions with native functions that do to the heap only what programs do to it. -/
def Usage.shapely (exe : Executable) : Usage where
  links registry := ∀ n ∈ registry.natives, n.Shapely exe
  args _ _ := True
  fits _ := True

theorem Shaped.new? {exe : Executable} {config : Config} {clock : Int64}
    (made : Machine.new? exe config clock = some m) :
  m.Shaped exe
  := by
  obtain ⟨stack, -, rfl⟩ := Option.map_eq_some_iff.1 made
  refine ⟨rfl, ?_, ?_⟩
  · have derived : Heap.Derived exe (.new config.gcThreshold config.gcThresholdIncrement
        (exe.classes.map Class.referenceFields)) (ofStack exe config clock stack).heap :=
      .defaultValues .refl (exe.globals.toList.map (·.ty))
    exact derived.shaped (.new exe _ _ _)
  · intro index native bound
    rw [natives_ofStack] at bound
    cases bound

/-- Instances have the fields of their classes before each instruction of a run. -/
theorem Session.shaped {exe : Executable} {entry : Nat} {start : Machine}
    (session : Session exe (.shapely exe) m) (enters : m.Enters entry start)
    (reaches : Reaches (fun _ => True) start m') :
  m'.Shaped exe
  := by
  obtain ⟨config, clock, first, made, served⟩ := session.served
  have law := KeepsShapes.law exe
  have served' := served.follows law fun m registry shapely => .link shapely
  have run := trans_of (KeepsShapes exe) (enters.follows law) (law.reaches reaches)
  exact run (served' (.new? made))

/-! ### Instructions on members -/

section

variable {handle : Handle} {c : UInt16} {fields : Array Value}

section

variable (found : m.heap.get? handle = some (.inst c fields))
include found

theorem expectInstance_eq :
  expectInstance (.ref handle) m = .ok (c, fields) m
  := by
  have there : object (.ref handle) m = .ok (.inst c fields) m := by
    simp only [object, Value.handle?, found]
  rw [expectInstance, bind_of_ok there]
  rfl

theorem getField_eq {k : Nat} {v : Value} (field : fields[k]? = some v) :
  getField (.ref handle) k m = .ok v m
  := by
  rw [getField, bind_of_ok (expectInstance_eq found)]
  dsimp only
  rw [field]
  rfl

theorem setField_eq {k : Nat} (inside : k < fields.size) (v : Value) :
  setField (.ref handle) k v m
    = .ok () (m.withHeap (m.heap.update handle (Object.setField k v)))
  := by
  rw [setField, bind_of_ok (expectInstance_eq found)]
  dsimp only
  rw [if_pos inside]
  exact modifyHeap_eq (fun heap => ((), heap.update handle (Object.setField k v))) m

theorem methodFunction_eq {class_ : Class} (there : m.exe.classes[c.toNat]? = some class_) {k : Nat}
    {method : Method} (slot : class_.methods[k]? = some method) :
  methodFunction (.ref handle) k m = .ok method.function m
  := by
  rw [methodFunction, bind_of_ok (expectInstance_eq found)]
  dsimp only
  rw [bind_of_ok (get_eq m), there, Option.bind_some, slot]
  rfl

theorem downCast_eq (target : UInt16) :
  downCast (.ref handle) target m
    = if m.exe.isSubclass c target then .ok () m
      else .error (.error (.classCast (m.exe.className c) (m.exe.className target))) m
  := by
  unfold downCast
  have notNull : ¬(Value.ref handle).isNull := Bool.false_ne_true
  rw [if_neg notNull, bind_of_ok (expectInstance_eq found)]
  dsimp only
  rw [bind_of_ok (get_eq m)]
  by_cases sub : m.exe.isSubclass c target
  · rw [if_pos sub, if_neg (by simpa using sub)]
    rfl
  · rw [if_neg sub, if_pos (by simpa using sub)]
    rfl

theorem instanceOf_eq (target : UInt16) :
  instanceOf (.ref handle) target m = .ok (m.exe.isSubclass c target) m
  := by
  have there : object (.ref handle) m = .ok (.inst c fields) m := by
    simp only [object, Value.handle?, found]
  unfold instanceOf
  dsimp only [Value.handle?]
  rw [bind_of_ok there]
  rfl

end

end

/-- What the instructions on members do when an instance of a class is on top of the stack. With
the index of a member that an ancestor has they find a field, or push what the name of the method
stands for in the class. A cast succeeds exactly when the test for it does. -/
structure Dispatches (p : Program) (handle : Handle) (c : UInt16) (m : Machine) : Prop where
  pushField : ∀ a above, m.exe.classes[a.toNat]? = some above → m.exe.isSubclass c a →
    ∀ (pc : Nat) (kind : SlotKind) (k : UInt16), k.toNat < above.fields.length →
    ∀ low, m.stack.Holds low [.ref handle] →
    ∃ v s, execute ⟨pc, .pushField kind, some k⟩ m = .ok none { m with stack := s }
      ∧ s.Holds low [v]
  popField : ∀ a above, m.exe.classes[a.toNat]? = some above → m.exe.isSubclass c a →
    ∀ (pc : Nat) (kind : SlotKind) (k : UInt16), k.toNat < above.fields.length →
    ∀ low v, m.stack.Holds low [v, .ref handle] →
    ∃ m', execute ⟨pc, .popField kind, some k⟩ m = .ok none m'
  pushMethod : ∀ a above, m.exe.classes[a.toNat]? = some above → m.exe.isSubclass c a →
    ∀ (pc : Nat) (k : UInt16) (method : Method), above.methods[k.toNat]? = some method →
    ∀ low, m.stack.Holds low [.ref handle] →
    ∃ f, p.Resolves method.name c.toNat f
      ∧ execute ⟨pc, .pushMethod, some k⟩ m = (push (.ofNat f.toNat) >>= fun _ => pure none) m
  downCast_iff : ∀ (a : UInt16) (pc : Nat) low, m.stack.Holds low [.ref handle] →
    ((∃ m', execute ⟨pc, .downCast, some a⟩ m = .ok none m')
      ↔ ∃ s, execute ⟨pc, .instanceOf, some a⟩ m = .ok none { m with stack := s }
        ∧ s.Holds low [.ofBool true])

section

variable {p : Program} {handle : Handle} {c : UInt16} {fields : Array Value} {low : Nat}

/-- A value takes the place of the one on top. -/
theorem push_lowered {v : Value} (h : m.stack.Holds low [v]) (w : Value) :
  ∃ s, push w (m.lowered 1) = .ok () { m with stack := s } ∧ s.Holds low [w]
  := by
  have held : m.stack.Holds low ([] ++ [v]) := h
  have empty : (m.lowered 1).stack.Holds low [] := held.lowered
  have sp := h.sp_eq
  have fits := h.fits
  rw [List.length_singleton] at sp
  have room : (m.lowered 1).stack.sp < (m.lowered 1).stack.cells.size := by
    change m.stack.sp - 1 < m.stack.cells.size
    omega
  have pushed : Stack.push w (m.lowered 1).stack = _ := Stack.pushCell_eq_of_lt room
  exact ⟨_, onStack_of_ok pushed, empty.push pushed⟩

section

variable (found : m.heap.get? handle = some (.inst c fields))
include found

theorem execute_pushField_eq {k : UInt16} (inside : k.toNat < fields.size)
    (h : m.stack.Holds low [.ref handle]) (pc : Nat) (kind : SlotKind) :
  ∃ v s, execute ⟨pc, .pushField kind, some k⟩ m = .ok none { m with stack := s } ∧ s.Holds low [v]
  := by
  have held : m.stack.Holds low ([] ++ [.ref handle]) := h
  have field : getField (.ref handle) k.toNat (m.lowered 1) = .ok fields[k.toNat] (m.lowered 1) :=
    getField_eq (m := m.lowered 1) found (Array.getElem?_eq_getElem inside)
  obtain ⟨s, pushed, holds⟩ := push_lowered h fields[k.toNat]
  refine ⟨fields[k.toNat], s, ?_, holds⟩
  change (pop >>= fun v => getField v k.toNat >>= fun w => push w >>= fun _ => pure none) m = _
  rw [bind_of_ok (pop_eq held), bind_of_ok field, bind_of_ok pushed]
  rfl

theorem execute_popField_eq {k : UInt16} (inside : k.toNat < fields.size) {v : Value}
    (h : m.stack.Holds low [v, .ref handle]) (pc : Nat) (kind : SlotKind) :
  ∃ m', execute ⟨pc, .popField kind, some k⟩ m = .ok none m'
  := by
  have held : m.stack.Holds low ([] ++ [v, .ref handle]) := h
  have stored := setField_eq (m := m.lowered 2) found inside v
  have ran : execute ⟨pc, .popField kind, some k⟩ m = _ :=
    pop_pop_eq held fun v target => setField target k.toNat v >>= fun _ => pure none
  exact ⟨_, ran.trans (bind_of_ok stored _)⟩

theorem execute_pushMethod_eq {class_ : Class} (there : m.exe.classes[c.toNat]? = some class_)
    {k : UInt16} {method : Method} (slot : class_.methods[k.toNat]? = some method)
    (h : m.stack.Holds low [.ref handle]) (pc : Nat) :
  execute ⟨pc, .pushMethod, some k⟩ m
    = (push (.ofNat method.function.toNat) >>= fun _ => pure none) m
  := by
  have held : m.stack.Holds low ([] ++ [.ref handle]) := h
  have top : peek 0 m = .ok (.ref handle) m := peek_eq held
  change (peek 0 >>= fun v => methodFunction v k.toNat >>= fun f =>
    push (.ofNat f.toNat) >>= fun _ => pure none) m = _
  rw [bind_of_ok top, bind_of_ok (methodFunction_eq found there slot)]

theorem execute_downCast_eq (a : UInt16) (h : m.stack.Holds low [.ref handle]) (pc : Nat) :
  (∃ m', execute ⟨pc, .downCast, some a⟩ m = .ok none m') ↔ m.exe.isSubclass c a
  := by
  have held : m.stack.Holds low ([] ++ [.ref handle]) := h
  have top : peek 0 m = .ok (.ref handle) m := peek_eq held
  change (∃ m', (peek 0 >>= fun v => downCast v a >>= fun _ => pure none) m = .ok none m') ↔ _
  rw [bind_of_ok top]
  have cast := downCast_eq found a
  by_cases sub : m.exe.isSubclass c a
  · rw [if_pos sub] at cast
    exact ⟨fun _ => sub, fun _ => ⟨m, bind_of_ok cast _⟩⟩
  · rw [if_neg sub] at cast
    rw [bind_of_error cast]
    constructor
    · rintro ⟨m', ended⟩
      cases ended
    · exact fun holds => absurd holds sub

theorem execute_instanceOf_eq (a : UInt16) (h : m.stack.Holds low [.ref handle]) (pc : Nat) :
  ∃ s, execute ⟨pc, .instanceOf, some a⟩ m = .ok none { m with stack := s }
    ∧ s.Holds low [.ofBool (m.exe.isSubclass c a)]
  := by
  have held : m.stack.Holds low ([] ++ [.ref handle]) := h
  have top : peek 0 m = .ok (.ref handle) m := peek_eq held
  have sp := h.sp_eq
  rw [List.length_singleton] at sp
  obtain ⟨s, pushed, holds⟩ := push_lowered h (.ofBool (m.exe.isSubclass c a))
  have replaced : replaceTop (.ofBool (m.exe.isSubclass c a)) m = .ok () { m with stack := s } := by
    rw [replaceTop_eq held, bind_of_ok (shrink_eq (by omega)), pushed]
  refine ⟨s, ?_, holds⟩
  change (unary (fun v => instanceOf v a >>= fun answer => pure (.ofBool answer))
    >>= fun _ => pure none) m = _
  have tested : unary (fun v => instanceOf v a >>= fun answer => pure (.ofBool answer)) m
      = .ok () { m with stack := s } := by
    rw [unary, bind_of_ok top, bind_assoc, bind_of_ok (instanceOf_eq found a), pure_bind, replaced]
  rw [bind_of_ok tested]
  rfl

end

/-- Instances that have the fields of their classes are dispatched on. -/
theorem Shaped.dispatches {exe : Executable} (shaped : m.Shaped exe)
    (laid : layoutClasses p = .ok exe.classes.toList)
    (found : m.heap.get? handle = some (.inst c fields)) :
  m.Dispatches p handle c
  := by
  obtain ⟨rfl, heap, -⟩ := shaped
  obtain ⟨class_, there, size⟩ := heap handle.index _ (by rwa [← Heap.get?_eq_objectAt])
  have inside {a : UInt16} {above : Class} (declared : m.exe.classes[a.toNat]? = some above)
      (sub : m.exe.isSubclass c a) {k : UInt16} (valid : k.toNat < above.fields.length) :
      k.toNat < fields.size := by
    have field := Executable.getElem?_fields_of_chain laid ((Executable.isSubclass_iff laid).1 sub)
      there declared (List.getElem?_eq_getElem valid)
    rw [size]
    exact (List.getElem?_eq_some_iff.1 field).1
  constructor
  · intro a above declared sub pc kind k valid low h
    exact execute_pushField_eq found (inside declared sub valid) h pc kind
  · intro a above declared sub pc kind k valid low v h
    exact execute_popField_eq found (inside declared sub valid) h pc kind
  · intro a above declared sub pc k method slot low h
    obtain ⟨f, slot'⟩ := Executable.getElem?_methods_of_chain laid
      ((Executable.isSubclass_iff laid).1 sub) there declared slot
    exact ⟨f, Executable.resolves_of_slot laid there slot',
      execute_pushMethod_eq found there slot' h pc⟩
  · intro a pc low h
    rw [execute_downCast_eq found a h pc]
    obtain ⟨s, tested, holds⟩ := execute_instanceOf_eq found a h pc
    constructor
    · intro sub
      rw [sub] at holds
      exact ⟨s, tested, holds⟩
    · rintro ⟨s', tested', holds'⟩
      rw [tested] at tested'
      cases tested'
      have same := (holds.cell 0 _ rfl).symm.trans (holds'.cell 0 _ rfl)
      cases sub : m.exe.isSubclass c a with
      | true => rfl
      | false =>
        rw [sub] at same
        cases same

end

end Machine

/-- In a compiled program, being a subclass is a partial order on the table of classes, the closure
of having a superclass, and the search for an ancestor ends. A subclass has the fields of its
ancestor and its method slots, with the functions that the names stand for in the subclass. In
every run, the instructions on members therefore find with an instance what the ancestors of its
class declare. -/
theorem dispatch_of_compile {p : Program} {exe : Executable} (compiled : compile p = .ok exe) :
  (∀ c a : UInt16, c.toNat < exe.classes.size → exe.Search a c (exe.isSubclass c a)
      ∧ (exe.isSubclass c a ↔ Relation.ReflTransGen exe.Parent c a))
    ∧ IsPartialOrder { c : UInt16 // c.toNat < exe.classes.size } (fun c a => exe.isSubclass c a)
    ∧ (∀ (c a : UInt16) (below above : Class), exe.classes[c.toNat]? = some below →
      exe.classes[a.toNat]? = some above → exe.isSubclass c a →
      (∀ (k : Nat) (field : VariableDecl), above.fields[k]? = some field →
        below.fields[k]? = some field)
      ∧ ∀ (k : Nat) (method : Method), above.methods[k]? = some method →
        ∃ f, below.methods[k]? = some ⟨method.name, f⟩ ∧ p.Resolves method.name c.toNat f)
    ∧ ∀ m₀ entry start m, Session exe (.shapely exe) m₀ → m₀.Enters entry start →
      Reaches (fun _ => True) start m →
      ∀ handle c fields, m.heap.get? handle = some (.inst c fields) → m.Dispatches p handle c
  := by
  have laid := (compile_eq_ok compiled).classes
  refine ⟨?_, ?_, ?_, ?_⟩
  · exact fun c a inside => ⟨Executable.search_isSubclass laid inside, Executable.isSubclass_iff laid⟩
  · refine { refl := ?_, trans := ?_, antisymm := ?_ }
    · exact fun c => (Executable.isSubclass_iff laid).2 .refl
    · intro c b a first second
      rw [Executable.isSubclass_iff laid] at first second ⊢
      exact first.trans second
    · intro c a first second
      rw [Executable.isSubclass_iff laid] at first second
      exact Subtype.ext (Executable.eq_of_chains laid first second)
  · intro c a below above found declared sub
    have chain := (Executable.isSubclass_iff laid).1 sub
    constructor
    · exact fun k field => Executable.getElem?_fields_of_chain laid chain found declared
    · intro k method slot
      obtain ⟨f, slot'⟩ := Executable.getElem?_methods_of_chain laid chain found declared slot
      exact ⟨f, slot', Executable.resolves_of_slot laid found slot'⟩
  · intro m₀ entry start m session enters reaches handle c fields found
    exact (session.shaped enters reaches).dispatches laid found

/-! ### An instance -/

/-- A method without a body of its own. -/
def shapeMethod (name : String) : FunctionDecl where
  name := name
  returnType := .void
  params := [⟨"this", .class 1⟩]
  body := some []

/-- A program that makes an instance of a subclass, whose superclass is declared after it. -/
def squares : Program where
  classes := [
    { name := "Square", superClass := some 1, members := [
        .method "area" 1 {}, .field "side" .int {}] },
    { name := "Shape", members := [.field "name" .string {}, .method "area" 0 {}] }]
  functions := [shapeMethod "area", shapeMethod "squareArea"]
  statements := [.expression {} (.newObject 0)]

def squaresFunction (name : String) : Function where
  name := name
  package := ""
  class_ := none
  returnType := .void
  params := [⟨"this", .class 1⟩]
  locals := []
  code := some ⟨#[0, 0, 79], #[⟨0, 0, 3⟩]⟩

def squaresExecutable : Executable where
  functions := #[squaresFunction "area", squaresFunction "squareArea"]
  classes := #[
    ⟨"Square", "", some 1, [⟨"name", .string⟩, ⟨"side", .int⟩], [⟨"area", 1⟩]⟩,
    ⟨"Shape", "", none, [⟨"name", .string⟩], [⟨"area", 0⟩]⟩]
  topLevel := ⟨#[80, 0, 0, 71], #[⟨0, 0, 4⟩]⟩

def squaresMachine : Machine := ofStack squaresExecutable {} 0 (Stack.new 4 8)

/-- The instance has been made and is on top of the stack. -/
def squaresAfter : Machine := (resume 1 (link .defaults squaresMachine).2.restart).2

/-- The slot of a method of the superclass has the function of the subclass. -/
theorem dispatch_squares :
  ∃ f, squares.Resolves "area" 0 f
    ∧ execute ⟨0, .pushMethod, some 0⟩ squaresAfter
      = (push (.ofNat f.toNat) >>= fun _ => pure none) squaresAfter
  := by
  have compiled : compile squares = .ok squaresExecutable := by cbv
  have made : new? squaresExecutable { initialStackSize := 4, maxStackSize := 8 } 0
      = some squaresMachine := rfl
  have session : Session squaresExecutable (.shapely squaresExecutable)
      (link .defaults squaresMachine).2 :=
    .link (.start made) fun n listed => Native.shapely_of_mem_defaults listed
  have stepped : step (link .defaults squaresMachine).2.restart = .ok .running squaresAfter := by cbv
  have holds : squaresAfter.stack.Holds 0 [.ref ⟨1⟩] := by
    refine ⟨by cbv, by cbv, ?_⟩
    intro k v found
    cases k with
    | zero =>
      cases found
      cbv
    | succ k => cases found
  have dispatched := (dispatch_of_compile compiled).2.2.2 _ _ _ _ session .run
    (.step .refl trivial stepped) ⟨1⟩ 0 #[.ref ⟨0⟩, .zero] (by cbv)
  exact dispatched.pushMethod 1 _ rfl (by cbv) 0 0 ⟨"area", 0⟩ rfl 0 holds

end Bytecode
