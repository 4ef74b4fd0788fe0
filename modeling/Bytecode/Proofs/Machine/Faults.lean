import Mathlib
import Bytecode.Proofs.Machine.FaultLocations
import Bytecode.Proofs.Machine.HeapBound
import Bytecode.Proofs.Machine.Records

/-!
# What a fault leaves behind

An instruction that ends in a fault may have dropped operands and made objects by then, but it has
not written anything: every write comes after all that can fail. `Machine.Spares` relates a machine
to one in which nothing has been written. Actions that read, drop operands or make objects follow
this relation however they end; actions that write are `Clean`, they do so if they end in a fault.
-/

namespace Bytecode

open Machine

/-! ### Nothing is written -/

/-- The second heap is in order if the first one is, and has its objects as they were. -/
def Heap.Extends (h h' : Heap) : Prop :=
  h.WellFormed → h'.WellFormed ∧ ∀ i o, h.objectAt i = some o → h'.objectAt i = some o

namespace Heap.Extends

variable {h h' h'' : Heap}

theorem refl (h : Heap) :
  h.Extends h
  := fun wf => ⟨wf, fun _ _ => id⟩

theorem trans (first : h.Extends h') (second : h'.Extends h'') :
  h.Extends h''
  := by
  intro wf
  obtain ⟨wf', kept⟩ := first wf
  obtain ⟨wf'', kept'⟩ := second wf'
  exact ⟨wf'', fun i o found => kept' i o (kept i o found)⟩

theorem alloc (h : Heap) (object : Object) :
  h.Extends (h.alloc object).2
  := fun wf => ⟨wf.alloc object, fun _ _ found => wf.objectAt_alloc_of_some object found⟩

theorem defaultValue (h : Heap) (ty : Ty) :
  h.Extends (h.defaultValue ty).2
  := by
  cases ty with
  | string => exact alloc h _
  | _ => exact refl h

theorem defaultValues (h : Heap) (tys : List Ty) :
  h.Extends (h.defaultValues tys).2
  := by
  induction tys generalizing h with
  | nil => exact refl h
  | cons ty rest ih => exact (defaultValue h ty).trans (ih _)

end Heap.Extends

namespace Machine

variable {m m' m'' : Machine}

/-- The second machine has what the first one has, up to operands that have been dropped and
objects that have been made. Only its place in the code may be another. -/
structure Spares (m m' : Machine) : Prop where
  program : SameProgram m m'
  globals : m'.globals = m.globals
  output : m'.output = m.output
  current : m'.registers.current = m.registers.current
  base : m'.registers.base = m.registers.base
  heap : m.heap.Extends m'.heap
  sp_le : m'.stack.sp ≤ m.stack.sp
  cells : ∀ k, k < m'.stack.sp → m'.stack.cells[k]? = m.stack.cells[k]?

namespace Spares

theorem refl (m : Machine) :
  m.Spares m
  := ⟨.refl m, rfl, rfl, rfl, rfl, .refl _, Nat.le_refl _, fun _ _ => rfl⟩

theorem trans (first : m.Spares m') (second : m'.Spares m'') :
  m.Spares m''
  where
  program := first.program.trans second.program
  globals := second.globals.trans first.globals
  output := second.output.trans first.output
  current := second.current.trans first.current
  base := second.base.trans first.base
  heap := first.heap.trans second.heap
  sp_le := Nat.le_trans second.sp_le first.sp_le
  cells k used :=
    (second.cells k used).trans (first.cells k (Nat.lt_of_lt_of_le used second.sp_le))

instance : IsPreorder Machine Spares where
  refl := .refl
  trans _ _ _ := .trans

/-- The cells in use are the lowest of those that were in use. -/
theorem live_isPrefix (spares : m.Spares m') :
  m'.stack.live <+: m.stack.live
  := by
  have same : m'.stack.live = m.stack.live.take m'.stack.sp := by
    rw [Stack.live, Stack.live, List.take_take, Nat.min_eq_left spares.sp_le]
    apply List.ext_getElem?
    intro k
    rw [List.getElem?_take, List.getElem?_take]
    split
    · next used =>
        rw [Array.getElem?_toList, Array.getElem?_toList]
        exact spares.cells k used
    · rfl
  rw [same]
  exact List.take_prefix _ _

theorem atPc (pc : Nat) (m : Machine) :
  m.Spares (m.atPc pc)
  := ⟨⟨rfl, rfl⟩, rfl, rfl, rfl, rfl, .refl _, Nat.le_refl _, fun _ _ => rfl⟩

end Spares

end Machine

/-! ### Actions that write nothing -/

theorem Reads.follows {α : Type} {R : Machine → Machine → Prop} [IsPreorder Machine R]
    {x : MachineM α} (reads : Reads x) :
  Follows R x
  := by
  intro m
  rw [reads m]
  exact refl_of R m

namespace Stack

variable {α β : Type}

/-- However the action ends, it has at most lowered the stack pointer. -/
def Drops (action : StackM α) : Prop :=
  ∀ s, (stateOf (action s)).cells = s.cells ∧ (stateOf (action s)).sp ≤ s.sp

namespace Drops

theorem bind {action : StackM α} {f : α → StackM β} (first : Drops action)
    (second : ∀ a, Drops (f a)) :
  Drops (action >>= f)
  := by
  intro s
  have before := first s
  rw [stateOf_bind]
  cases run : action s with
  | ok a s₁ =>
    rw [run] at before
    have after := second a s₁
    exact ⟨after.1.trans before.1, Nat.le_trans after.2 before.2⟩
  | error trap s₁ =>
    rw [run] at before
    exact before

theorem shrink (count : Nat) :
  Drops (Stack.shrink count)
  := by
  intro s
  unfold Stack.shrink
  split
  · exact ⟨rfl, Nat.sub_le _ _⟩
  · exact ⟨rfl, Nat.le_refl _⟩

theorem get (index : Nat) :
  Drops (Stack.get index)
  := by
  intro s
  unfold Stack.get
  split
  all_goals exact ⟨rfl, Nat.le_refl _⟩

theorem pop :
  Drops Stack.pop
  := (shrink 1).bind fun _ s => get s.sp s

theorem peek (depth : Nat) :
  Drops (Stack.peek depth)
  := by
  apply bind _ fun index => get index
  intro s
  unfold Stack.fromTop
  split
  all_goals exact ⟨rfl, Nat.le_refl _⟩

theorem top (count : Nat) :
  Drops (Stack.top count)
  := by
  intro s
  unfold Stack.top
  split
  all_goals exact ⟨rfl, Nat.le_refl _⟩

theorem follows {action : StackM α} (drops : Drops action) :
  Follows Spares (onStack action)
  := by
  intro m
  obtain ⟨cells, sp⟩ := drops m.stack
  rw [stateOf_onStack]
  refine ⟨⟨rfl, rfl⟩, rfl, rfl, rfl, rfl, .refl _, sp, ?_⟩
  intro k _
  change (stateOf (action m.stack)).cells[k]? = _
  rw [cells]

end Drops

end Stack

theorem follows_modifyHeap {α : Type} {f : Heap → α × Heap} (grows : ∀ h : Heap, h.Extends (f h).2) :
  Follows Spares (modifyHeap f)
  := by
  intro m
  rw [modifyHeap_eq]
  exact ⟨⟨rfl, rfl⟩, rfl, rfl, rfl, rfl, grows m.heap, Nat.le_refl _, fun _ _ => rfl⟩

theorem follows_newString (text : String) :
  Follows Spares (newString text)
  := follows_modifyHeap fun h => .alloc h _

theorem follows_allocate (o : Object) :
  Follows Spares (allocate o)
  := follows_modifyHeap fun h => .alloc h o

theorem follows_newArray (kind : SlotKind) (size : Int64) :
  Follows Spares (newArray kind size)
  := by
  unfold newArray
  split
  · exact .throw _
  · split
    · exact .throw _
    · exact follows_allocate _

theorem follows_newInstance (index : Nat) :
  Follows Spares (newInstance index)
  := by
  apply Follows.get_bind
  intro m
  cases m.exe.classes[index]? with
  | none => exact .throw _
  | some c => exact follows_modifyHeap fun h => (Heap.Extends.defaultValues h _).trans (.alloc _ _)

theorem follows_convert (conversion : Conversion) (v : Value) :
  Follows Spares (convert conversion v)
  := by
  cases conversion with
  | intToDouble | doubleToInt => exact .pure _
  | _ => exact follows_newString _

theorem follows_literal {select : Constant → Option (MachineM Value)}
    (selection : Instruction.Selection select) (index : Nat) :
  Follows Spares (Instruction.compute.literal index select)
  := by
  apply Follows.get_bind
  intro m
  cases found : (m.exe.constants[index]?).bind select with
  | none => exact .throw _
  | some x => exact selection.each (fun v _ => .pure v) follows_newString found

/-! ### Actions that write last -/

namespace Machine

/-- Native functions are bound to built-in procedures only. -/
def BuiltIn (m : Machine) : Prop :=
  ∀ (index : Nat) native, (m.natives[index]?).join = some native → native ∈ Registry.defaults.natives

end Machine

/-- The action raises no fault. -/
def Faultless {σ α : Type} (x : EStateM Trap σ α) : Prop :=
  ∀ s f s', x s ≠ .error (.error f) s'

namespace Faultless

variable {σ α β : Type}

theorem pure (a : α) :
  Faultless (Pure.pure a : EStateM Trap σ α)
  := nofun

theorem bind {x : EStateM Trap σ α} {f : α → EStateM Trap σ β} (first : Faultless x)
    (second : ∀ a, Faultless (f a)) :
  Faultless (x >>= f)
  := by
  intro s fault s' raised
  rcases bind_eq_error.1 raised with failed | ⟨a, s₁, -, failed⟩
  · exact first s fault s' failed
  · exact second a s₁ fault s' failed

theorem modified (g : σ → σ) :
  Faultless (modify g : EStateM Trap σ Unit)
  := nofun

theorem onStack {action : StackM α} (faultless : Faultless action) :
  Faultless (Machine.onStack action)
  := by
  intro m f m' raised
  obtain ⟨s, failed, -⟩ := onStack_eq_error raised
  exact faultless m.stack f s failed

theorem set (index : Nat) (v : Value) :
  Faultless (Stack.set index v)
  := by
  intro s f s' raised
  unfold Stack.set at raised
  split at raised
  all_goals cases raised

theorem replaceTop (v : Value) :
  Faultless (Machine.replaceTop v)
  := by
  have fromTop : Faultless (Stack.fromTop 0) := by
    intro s f s' raised
    unfold Stack.fromTop at raised
    split at raised
    all_goals cases raised
  exact onStack (fromTop.bind fun index => set index v)

theorem setGlobal (index : Nat) (v : Value) :
  Faultless (Machine.setGlobal index v)
  := by
  intro m f m' raised
  unfold Machine.setGlobal at raised
  split at raised
  all_goals cases raised

end Faultless

/-- A cell that cannot be pushed leaves the stack as it was. -/
theorem Stack.pushCell_eq_fault {cell : Cell} {s s' : Stack} {f : Fault}
    (raised : pushCell cell s = .error (.error f) s') :
  s' = s
  := by
  by_cases full : s.sp = s.cells.size
  · exact (pushCell_eq_error (Nat.le_of_eq full) raised).1
  · unfold pushCell place at raised
    rw [if_neg full] at raised
    split at raised
    all_goals cases raised

/-- If the action ends in a fault, it has not written anything. -/
def Clean {α : Type} (x : MachineM α) : Prop :=
  ∀ m f m', m.BuiltIn → x m = .error (.error f) m' → m.Spares m'

namespace Clean

variable {α β : Type} {x : MachineM α} {f : α → MachineM β}

theorem of_follows (follows : Follows Spares x) :
  Clean x
  := by
  intro m f m' _ raised
  have spares := follows m
  rw [raised] at spares
  exact spares

theorem of_faultless (faultless : Faultless x) :
  Clean x
  := fun m f m' _ raised => absurd raised (faultless m f m')

/-- Something may be written when nothing has been written before. -/
theorem bind (first : Follows Spares x) (second : ∀ a, Clean (f a)) :
  Clean (x >>= f)
  := by
  intro m fault m' builtIn raised
  have spares := first m
  rcases bind_eq_error.1 raised with failed | ⟨a, m₁, ran, failed⟩
  · rw [failed] at spares
    exact spares
  · rw [ran] at spares
    have builtIn₁ : m₁.BuiltIn := by
      unfold BuiltIn
      rw [show m₁.natives = m.natives from spares.program.natives]
      exact builtIn
    exact spares.trans (second a m₁ fault m' builtIn₁ failed)

/-- Nothing that can fail comes after what is written. -/
theorem before (clean : Clean x) (faultless : ∀ a, Faultless (f a)) :
  Clean (x >>= f)
  := by
  intro m fault m' builtIn raised
  rcases bind_eq_error.1 raised with failed | ⟨a, m₁, -, failed⟩
  · exact clean m fault m' builtIn failed
  · exact absurd failed (faultless a m₁ fault m')

theorem get_bind {f : Machine → MachineM β} (each : ∀ m, Clean (f m)) :
  Clean (get >>= f)
  := fun m => each m m

end Clean

theorem clean_push (v : Value) :
  Clean (push v)
  := by
  intro m f m' _ raised
  obtain ⟨s, failed, rfl⟩ := onStack_eq_error raised
  rw [Stack.pushCell_eq_fault failed]
  exact .refl m

/-- An object is changed if there is one. -/
theorem clean_updateObject (v : Value) (f : Object → Object) :
  Clean (updateObject v f)
  := by
  unfold updateObject
  cases v.handle? with
  | none => exact .of_follows (.throw _)
  | some handle =>
    apply Clean.of_faultless
    intro m fault m' raised
    dsimp only at raised
    rw [modifyHeap_eq] at raised
    cases raised

theorem clean_arraySet (array : Value) (index : Int64) (v : Value) :
  Clean (arraySet array index v)
  := .bind (looks_object array).reads.follows fun _ => .bind (looks_checkIndex index _).reads.follows fun _ =>
    clean_updateObject _ _

theorem clean_setField (object : Value) (index : Nat) (v : Value) :
  Clean (setField object index v)
  := by
  apply Clean.bind (looks_expectInstance object).reads.follows
  intro found
  dsimp only
  split
  · exact clean_updateObject _ _
  · exact .of_follows (.throw _)

/-! ### Calls and returns -/

/-- A built-in procedure leaves the host as it was, or raises no fault. -/
theorem Native.unchanged_or_faultless {n : Native} (listed : n ∈ Registry.defaults.natives) :
  (∀ args host, stateOf (n.run args host) = host)
    ∨ n.arity = 1 ∧ ∀ args, Faultless (n.run args)
  := by
  have faultless {n : Native} {f : String → String}
      (writes : ∀ args host, n.run args host = written f args host) (args : List Value) :
      Faultless (n.run args) := by
    intro host fault host' raised
    rw [writes] at raised
    unfold written at raised
    split at raised
    · cases raised
    · rw [Host.textOrNull_eq] at raised
      split at raised
      · cases raised
      · next failed =>
          split at failed
          · cases failed
          · split at failed
            all_goals cases failed
            cases raised
  simp only [Registry.defaults, List.mem_cons, List.not_mem_nil, or_false] at listed
  rcases listed with rfl | rfl | rfl | rfl
  · exact .inr ⟨rfl, faultless print_run_eq⟩
  · exact .inr ⟨rfl, faultless println_run_eq⟩
  · left
    intro args host
    rw [sqrt_run_eq]
    split
    · rfl
    · split
      all_goals rfl
  · exact .inl fun _ _ => rfl

theorem follows_onHost {α : Type} {action : EStateM Trap Host α}
    (unchanged : ∀ host, stateOf (action host) = host) :
  Follows Spares (onHost action)
  := by
  intro m
  rw [stateOf_onHost, unchanged]
  exact .refl m

/-- A result that takes the place of an argument can be pushed. -/
theorem faultless_replaceArgument {x : List Value → MachineM Value} (off : ∀ vs, OffStack (x vs))
    (faultless : ∀ vs, Faultless (x vs)) :
  Faultless (do
    let args ← onStack (Stack.top 1)
    let result ← x args
    onStack (Stack.shrink 1)
    push result)
  := by
  intro m f m' raised
  rcases bind_eq_error.1 raised with failed | ⟨args, m₁, ran, failed⟩
  · obtain ⟨s, failed, -⟩ := onStack_eq_error failed
    unfold Stack.top at failed
    split at failed
    all_goals cases failed
  obtain ⟨s, read, rfl⟩ := onStack_eq_ok ran
  unfold Stack.top at read
  split at read
  · next enough =>
      injection read with _ same
      subst same
      rcases bind_eq_error.1 failed with failed | ⟨result, m₂, computed, failed⟩
      · exact faultless args m f m' failed
      · have kept := (off args).stack m
        rw [show x args m = .ok result m₂ from computed, stateOf_ok] at kept
        rw [← kept] at enough
        rw [bind_of_ok (shrink_eq enough.1)] at failed
        obtain ⟨s, failed, -⟩ := onStack_eq_error failed
        have room : m₂.stack.sp - 1 < m₂.stack.cells.size := by omega
        rw [Stack.push, Stack.pushCell_eq_of_lt room] at failed
        cases failed
  · cases read

theorem clean_callNative (index : Nat) (f : Function) :
  Clean (callNative index f)
  := by
  intro m fault m' builtIn raised
  rw [callNative, bind_of_ok (get_eq m)] at raised
  cases bound : (m.natives[index]?).join with
  | none =>
    rw [bound] at raised
    cases raised
    exact .refl m
  | some native =>
    rw [bound] at raised
    dsimp only at raised
    rcases Native.unchanged_or_faultless (builtIn index native bound) with unchanged | ⟨one, faultless⟩
    · have clean : Clean (do
          let args ← onStack (Stack.top native.arity)
          let result ← onHost (native.run args)
          onStack (Stack.shrink native.arity)
          push result) :=
        .bind (Stack.Drops.top _).follows fun args =>
          .bind (follows_onHost (unchanged args)) fun _ =>
            .bind (Stack.Drops.shrink _).follows fun _ => clean_push _
      exact clean m fault m' builtIn raised
    · rw [one] at raised
      refine absurd raised (faultless_replaceArgument (fun _ => .onHost _) ?_ m fault m')
      intro args m₁ fault₁ m₂ raised₁
      rw [onHost_eq] at raised₁
      split at raised₁
      · cases raised₁
      · next failed =>
          cases raised₁
          exact faultless args _ _ _ failed

theorem pushLocals_faultless {decls : List VariableDecl} {m m' : Machine} {f : Fault}
    (room : m.stack.sp + decls.length ≤ m.stack.cells.size) :
  pushLocals decls m ≠ .error (.error f) m'
  := by
  induction decls generalizing m with
  | nil => nofun
  | cons decl rest ih =>
    intro raised
    unfold pushLocals at raised
    rw [List.length_cons] at room
    rw [bind_of_ok (modifyHeap_eq _ m)] at raised
    have pushed : push (m.heap.defaultValue decl.ty).1 (m.withHeap (m.heap.defaultValue decl.ty).2)
        = _ := onStack_of_ok (Stack.pushCell_eq_of_lt (by change m.stack.sp < m.stack.cells.size; omega))
    rw [bind_of_ok pushed] at raised
    refine ih ?_ raised
    change m.stack.sp + 1 + rest.length ≤ (m.stack.cells.setIfInBounds _ _).size
    rw [Array.size_setIfInBounds]
    omega

/-- A frame for which there is room is built to its end. -/
theorem clean_enterFunction (index : Nat) (f : Function) (caller : Caller) :
  Clean (enterFunction index f caller)
  := by
  intro m fault m' _ raised
  rw [enterFunction, bind_of_ok (get_eq m)] at raised
  rcases bind_eq_error.1 raised with failed | ⟨_, m₁, ran, failed⟩
  · obtain ⟨s, refused, rfl⟩ := onStack_eq_error failed
    rw [(Stack.reserve_eq_error refused).1]
    exact .refl m
  · exfalso
    obtain ⟨s, reserved, rfl⟩ := onStack_eq_ok ran
    have room := (Stack.reserve_eq_ok reserved).room
    rw [← (Stack.reserve_eq_ok reserved).sp_eq, Frame.recordSize] at room
    rw [bind_of_ok (get_eq _)] at failed
    dsimp only at failed
    split at failed
    · cases failed
    · have recorded : onStack (Stack.pushCall ⟨caller, m.registers.pc, m.registers.base⟩)
          { m with stack := s } = _ := onStack_of_ok (Stack.pushCell_eq_of_lt (by
        change s.sp < s.cells.size
        omega))
      rw [bind_of_ok recorded] at failed
      rcases bind_eq_error.1 failed with failed | ⟨_, m₂, -, failed⟩
      · refine pushLocals_faultless ?_ failed
        change s.sp + 1 + f.locals.length ≤ (s.cells.setIfInBounds _ _).size
        rw [Array.size_setIfInBounds]
        omega
      · cases failed

theorem clean_invoke :
  Clean invoke
  := by
  apply Clean.bind Stack.Drops.pop.follows
  intro v
  apply Clean.get_bind
  intro m
  cases m.exe.functions[v.bits.toNat]? with
  | none => exact .of_follows (.throw _)
  | some f =>
    dsimp only
    split
    · exact (clean_callNative _ f).before fun _ => .modified _
    · exact .get_bind fun _ => clean_enterFunction _ _ _

/-- A frame that is dropped leaves room for the result. -/
theorem clean_returnValue :
  Clean returnValue
  := by
  apply Clean.bind Stack.Drops.pop.follows
  intro v m fault m' _ raised
  rw [bind_of_ok (get_eq m)] at raised
  cases current : m.registers.current with
  | none =>
    rw [current] at raised
    cases raised
  | some index =>
    rw [current] at raised
    dsimp only at raised
    iterate 3 rw [bind_of_ok (get_eq m)] at raised
    cases found : m.stack.callInfo? (m.registers.base
        + Frame.recordOffset (((m.exe.functions[index]?).map fun f => f.params.length).getD 0)) with
    | none =>
      rw [found] at raised
      cases raised
      exact .refl m
    | some info =>
      have inside := (Array.getElem?_eq_some_iff.1 (Stack.callInfo?_eq_some_iff.1 found)).1
      rw [found] at raised
      dsimp only at raised
      let dropped : Machine := { m with stack := { m.stack with sp := m.registers.base } }
      have pushed : push v dropped = _ := onStack_of_ok (Stack.pushCell_eq_of_lt (by
        change m.registers.base < m.stack.cells.size
        omega))
      change (push v >>= _) dropped = _ at raised
      rw [bind_of_ok pushed] at raised
      cases goesOn : info.caller with
      | _ =>
        rw [goesOn] at raised
        cases raised

/-! ### Instructions -/

theorem clean_pushConstant {select : Constant → Option (MachineM Value)}
    (selection : Instruction.Selection select) (index : Nat) :
  Clean (pushConstant index select)
  := by
  rw [pushConstant_eq]
  exact .bind (follows_literal selection index) fun v => clean_push v

theorem clean_unary {f : Value → MachineM Value} (each : ∀ v, Follows Spares (f v)) :
  Clean (unary f)
  := .bind (Stack.Drops.peek 0).follows fun v => .bind (each v) fun w =>
    .of_faultless (.replaceTop w)

theorem clean_binary {f : Value → Value → MachineM Value} (each : ∀ v w, Follows Spares (f v w)) :
  Clean (binary f)
  := .bind Stack.Drops.pop.follows fun w => .bind (Stack.Drops.peek 0).follows fun v =>
    .bind (each v w) fun u => .of_faultless (.replaceTop u)

theorem clean_jumpIf (truth : Bool) (target : Nat) :
  Clean (jumpIf truth target)
  := by
  apply Clean.bind Stack.Drops.pop.follows
  intro v
  split
  · exact .of_faultless (.modified _)
  · exact .of_faultless (.pure _)

/-- An instruction that ends in a fault has not written anything. -/
theorem clean_execute (i : Instruction) :
  Clean (execute i)
  := by
  have ends {x : MachineM Unit} (clean : Clean x) :
      Clean (x >>= fun _ => (Pure.pure none : MachineM (Option Value))) :=
    clean.before fun _ => .pure _
  have push (v : Value) : Clean (push v >>= fun _ => (Pure.pure none : MachineM (Option Value))) :=
    ends (clean_push v)
  have popped {f : Value → MachineM (Option Value)} (each : ∀ v, Clean (f v)) : Clean (pop >>= f) :=
    .bind Stack.Drops.pop.follows each
  have peeked {f : Value → MachineM (Option Value)} (each : ∀ v, Clean (f v)) : Clean (peek 0 >>= f) :=
    .bind (Stack.Drops.peek 0).follows each
  have frameSlot {f : Nat → MachineM (Option Value)} (each : ∀ k, Clean (f k)) (offset : Nat) :
      Clean (frameSlot offset >>= f) := .get_bind fun m => each _
  obtain ⟨pc, op, operand⟩ := i
  cases op with
  | pushInt1Byte | pushInt2Byte | pushDouble0 | pushDouble1 | pushNull | pushFunction =>
    exact push _
  | pushInt => exact ends (clean_pushConstant .int _)
  | pushDouble => exact ends (clean_pushConstant .double _)
  | pushString => exact ends (clean_pushConstant .string _)
  | pushStack kind => exact frameSlot (fun k => .bind (Stack.Drops.get k).follows push) _
  | popStack kind =>
    exact popped fun v => frameSlot (fun k => ends (.of_faultless (.onStack (.set k v)))) _
  | pushStatic kind => exact .bind (looks_getGlobal _).reads.follows push
  | popStatic kind => exact popped fun v => ends (.of_faultless (.setGlobal _ v))
  | pushArray kind =>
    exact popped fun _ => popped fun _ => .bind (looks_arrayGet _ _).reads.follows push
  | popArray kind =>
    exact popped fun _ => popped fun _ => popped fun _ => ends (clean_arraySet _ _ _)
  | pushField kind => exact popped fun _ => .bind (looks_getField _ _).reads.follows push
  | popField kind => exact popped fun _ => popped fun _ => ends (clean_setField _ _ _)
  | arithInt op => exact ends (clean_binary fun _ _ => (looks_arithInts _ _ _).reads.follows)
  | arithDouble op | compareInt op | compareDouble op =>
    exact ends (clean_binary fun _ _ => .pure _)
  | addString =>
    exact ends (.bind (Stack.Drops.peek 0).follows fun _ => .bind (Stack.Drops.peek 1).follows fun _ =>
      .bind (looks_textOrNull _).reads.follows fun _ => .bind (looks_textOrNull _).reads.follows fun _ =>
      .bind (follows_newString _) fun v => .bind (Stack.Drops.shrink 2).follows fun _ => clean_push v)
  | minusInt | minusDouble | logicalNot => exact ends (clean_unary fun _ => .pure _)
  | cast conversion => exact ends (clean_unary fun _ => follows_convert _ _)
  | compareString op => exact ends (clean_binary fun _ _ => (looks_compareStrings _ _ _).reads.follows)
  | eqObject | neObject =>
    exact ends (.bind Stack.Drops.pop.follows fun _ => .bind Stack.Drops.pop.follows fun _ =>
      clean_push _)
  | pop => exact ends (.bind Stack.Drops.pop.follows fun _ => .of_faultless (.pure _))
  | duplicate => exact peeked push
  | jump => exact .of_faultless ((Faultless.modified _).bind fun _ => .pure _)
  | jumpIfTrue | jumpIfFalse => exact ends (clean_jumpIf _ _)
  | pushMethod => exact peeked fun _ => .bind (looks_methodFunction _ _).reads.follows fun _ => push _
  | invoke => exact .bind (Spares.atPc pc) fun _ => ends clean_invoke
  | ret => exact .bind (Spares.atPc pc) fun _ => clean_returnValue
  | new => exact .bind (follows_newInstance _) push
  | newArray kind => exact popped fun _ => .bind (follows_newArray _ _) push
  | newArrayLiteral kind =>
    exact .bind (Stack.Drops.top _).follows fun _ => .bind (follows_allocate _) fun v =>
      .bind (Stack.Drops.shrink _).follows fun _ => push v
  | arraySize => exact ends (clean_unary fun _ => ((looks_arrayLength _).reads.bind fun _ => .pure _).follows)
  | stringLength =>
    exact ends (clean_unary fun _ => ((looks_expectString _).reads.bind fun _ => .pure _).follows)
  | downCast => exact peeked fun _ => ends (.of_follows (looks_downCast _ _).reads.follows)
  | instanceOf =>
    exact ends (clean_unary fun _ => ((looks_instanceOf _ _).reads.bind fun _ => .pure _).follows)

/-! ### Steps -/

namespace Machine

variable {m m' : Machine}

theorem Spares.advanced (i : Instruction) (m : Machine) :
  m.Spares (m.advanced i)
  := ⟨⟨rfl, rfl⟩, rfl, rfl, rfl, rfl, .refl _, Nat.le_refl _, fun _ _ => rfl⟩

/-- A step that ends in a fault has written nothing since the collection before it. -/
theorem spares_of_step {f : Fault} (builtIn : m.BuiltIn) (failed : step m = .error (.error f) m') :
  ∃ m₁, collectIfDue m = .ok () m₁ ∧ m₁.Spares m'
  := by
  rw [step_eq] at failed
  cases due : collectIfDue m with
  | error trap m₁ =>
    rw [due] at failed
    cases failed
    cases eq_crash_of_collectIfDue due
  | ok _ m₁ =>
    obtain ⟨host, same⟩ := eq_of_collectIfDue due
    have builtIn₁ : m₁.BuiltIn := by
      rw [same]
      exact builtIn
    rw [due] at failed
    dsimp only at failed
    refine ⟨m₁, rfl, ?_⟩
    split at failed
    · cases failed
    · split at failed
      · cases failed
        exact .refl _
      · next i _ =>
          split at failed
          · next executed =>
              cases failed
              exact (Spares.advanced i _).trans (clean_execute i _ f _ builtIn₁ executed)
          · cases failed
          · cases failed

/-- An instruction that ends in a fault leaves globals, output, native functions and frame as they
were. All objects that there were after the collection before it are there with their contents, and
the cells in use are the lowest of those that were in use. -/
theorem fault_leaves_state {f : Fault} (wf : m.heap.WellFormed) (builtIn : m.BuiltIn)
    (failed : step m = .error (.error f) m') :
  ∃ m₁, collectIfDue m = .ok () m₁
    ∧ m'.globals = m₁.globals ∧ m'.output = m₁.output ∧ m'.natives = m₁.natives
    ∧ m'.registers.current = m₁.registers.current ∧ m'.registers.base = m₁.registers.base
    ∧ (∀ handle o, m₁.heap.get? handle = some o → m'.heap.get? handle = some o)
    ∧ m'.stack.sp ≤ m₁.stack.sp ∧ m'.stack.live <+: m₁.stack.live
  := by
  obtain ⟨m₁, collected, spares⟩ := spares_of_step builtIn failed
  have wf₁ := wellFormed_collectIfDue wf
  rw [collected] at wf₁
  exact ⟨m₁, collected, spares.globals, spares.output, spares.program.natives, spares.current,
    spares.base, fun handle o => (spares.heap wf₁).2 handle.index o, spares.sp_le,
    spares.live_isPrefix⟩

/-- The machine of the division by zero before it divides. -/
def divisionBefore : Machine := (resume 5 divisionMachine.restart).2

/-- The divisor is dropped before the division by zero. -/
theorem fault_leaves_division :
  ∃ m m', collectIfDue divisionBefore = .ok () m
    ∧ step divisionBefore = .error (.error .divisionByZero) m' ∧ m'.stack.sp < m.stack.sp
    ∧ m'.stack.live <+: m.stack.live
  := by
  have failed : step divisionBefore = .error (.error .divisionByZero) (stateOf (step divisionBefore)) :=
    rfl
  have wf : divisionBefore.heap.WellFormed := .new _ _ _
  have builtIn : divisionBefore.BuiltIn := by
    intro index native bound
    change (divisionMachine.natives[index]?).join = some native at bound
    rw [divisionMachine, natives_ofStack] at bound
    cases bound
  obtain ⟨m, collected, -, -, -, -, -, -, -, prefixed⟩ := fault_leaves_state wf builtIn failed
  refine ⟨m, _, collected, failed, ?_, prefixed⟩
  have unchanged : collectIfDue divisionBefore = .ok () divisionBefore := rfl
  rw [unchanged] at collected
  cases collected
  decide

end Machine

end Bytecode
