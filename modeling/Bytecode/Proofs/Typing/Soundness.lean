import Mathlib
import Bytecode.Proofs.Machine.Dangling
import Bytecode.Proofs.Typing.Frames

/-!
# Function values denote functions of their types

In a well-typed program every call that is no method call finds a value of the type of its callee:
the index of a function of exactly that type, or zero. Zero is what every slot of a function type
starts with, and it is the index of the first function, whatever the type of that one is. So the
arguments are as many as the function takes, unless the value that is called has never been set.

This holds at every call of every run of the top level, as long as the calls of such values before it
have met a function of the right type: `Machine.DefaultsFit`.
-/

namespace Bytecode

open Machine
open List (Forall₂)

/-! ### Calls in compiled code -/

/-- The instruction with which the code of a call of a function value ends. -/
theorem Program.CallAt.exists_point {p : Program} {current : Option Nat} {pc : Nat} {callee : Expr}
    {args : List Expr} (call : p.CallAt current pc callee args)
    (noMethod : callee.isMethod = false) :
  ∃ point ∈ p.points current, point.pc = pc ∧ point.op = .invoke
  := by
  obtain ⟨⟨_, site, start⟩, listed, stops, m, rfl⟩ := call
  obtain ⟨aims, within, -⟩ := p.located_of_mem_spots current _ listed
  have piece : (Expr.call m callee args).piece site = _ := Expr.piece_call noMethod
  have stop := Expr.stop_call m args site start noMethod
  rw [stops] at stop
  change Piece.Within _ aims start ((Expr.call m callee args).piece site) at within
  rw [piece] at within
  obtain ⟨depth, there⟩ := within.right _ (List.mem_singleton_self _)
  exact ⟨_, there, (Nat.add_right_cancel stop).symm, rfl⟩

/-- What is called, and with what: a function value, or a method of an object. -/
theorem Moves.of_invoke {p : Program} {exe : Executable} {current : Option Nat} {pc : Nat}
    {d : Directive} {plan plan' : Plan} (moves : Moves p exe current pc d plan plan')
    (call : d.op = .invoke) :
  ∃ callee args tys ty, p.CallAt current pc callee args ∧ plan' = .plain (tys ++ [ty])
    ∧ ((callee.isMethod = false ∧ d.args = args.length
        ∧ plan = .plain (tys ++ args.map Expr.ty ++ [callee.ty])
        ∧ ∃ result params, callee.ty = .function result params
          ∧ Forall₂ exe.Fits (args.map Expr.ty) params ∧ exe.Fits result ty)
      ∨ ∃ m object k f params this, callee = .method m object k ∧ d.args = args.length + 1
        ∧ plan = .dispatch (tys ++ args.map Expr.ty ++ [object.ty]) k.toNat
        ∧ exe.method? object.ty k.toNat = some f ∧ f.paramTys = params ++ [this]
        ∧ Forall₂ exe.Fits (args.map Expr.ty) params ∧ exe.Fits f.returnType ty)
  := by
  cases moves with
  | call called noMethod isFunction fits result =>
    exact ⟨_, _, _, _, called, rfl, .inl ⟨noMethod, rfl, rfl, _, _, isFunction, fits, result⟩⟩
  | callMethod called declared params fits result =>
    exact ⟨_, _, _, _, called, rfl,
      .inr ⟨_, _, _, _, _, _, rfl, rfl, rfl, declared, params, fits, result⟩⟩
  | drop op =>
    rw [call] at op
    rcases op with op | op | op
    all_goals cases op
  | make makes =>
    rw [call] at makes
    cases makes
  | @load _ _ place | @store _ _ place =>
    cases place
    all_goals cases call
  | zero => cases call
  | jump op | null op | function op | duplicate op | element op | setElement op | field op
  | setField op | method op | ret op | new op | newArray op | arrayLiteral op | downCast op =>
    cases call.symm.trans op

/-- A store to a field is of a value that fits it. -/
theorem Moves.of_popField {p : Program} {exe : Executable} {current : Option Nat} {pc : Nat}
    {d : Directive} {plan plan' : Plan} (moves : Moves p exe current pc d plan plan')
    {kind : SlotKind} (store : d.op = .popField kind) :
  ∃ (k : Nat) (tys : List Ty) (object ty ty' : Ty), plan = .plain (tys ++ [ty, object])
    ∧ d.operand = .number k ∧ exe.fieldTy? object k = some ty' ∧ exe.Fits ty ty'
  := by
  cases moves with
  | setField _ numbered declared fits => exact ⟨_, _, _, _, _, rfl, numbered, declared, fits⟩
  | drop op =>
    rw [store] at op
    rcases op with op | op | op
    all_goals cases op
  | make makes =>
    rw [store] at makes
    cases makes
  | @load _ _ place | @store _ _ place =>
    cases place
    all_goals cases store
  | zero | call | callMethod => cases store
  | jump op | null op | function op | duplicate op | element op | setElement op | field op
  | method op | ret op | new op | newArray op | arrayLiteral op | downCast op =>
    cases store.symm.trans op

theorem Op.isPlain_of_makes? {op : Op} {made : Ty} (makes : op.makes? = some made) :
  op.isPlain
  := by
  cases op with
  | _ => first | rfl | cases makes

namespace Machine

variable {p : Program} {exe : Executable} {types : HeapTyping} {m m' : Machine} {entry : Nat}
  {point : Point} {plan plan' : Plan} {vs : List Value} {i : Instruction}

/-- If the call before the machine is of a function value that is zero, then the first function is of
the type of the callee. -/
def DefaultsFit (p : Program) (m : Machine) : Prop :=
  ∀ callee args, p.CallAt m.registers.current m.registers.pc callee args →
    callee.isMethod = false → ∀ v f, m.stack.cells[m.stack.sp - 1]? = some (.value v) →
      v.bits = 0 → m.exe.functions[0]? = some f → f.ty = callee.ty

/-- An object of a class finds a method that takes it and what every method in its place takes. -/
theorem applies_of_dispatches (wellTyped : p.WellTyped m.exe) {object : Ty} {slot : Nat}
    {f : Function} {tys params : List Ty} {this ty : Ty} {args : List Value} {v w : Value}
    (declared : m.exe.method? object slot = some f) (takes : f.paramTys = params ++ [this])
    (fits : Forall₂ m.exe.Fits tys params) (result : m.exe.Fits f.returnType ty)
    (passed : HaveTypes m.exe types tys args) (instance_ : v.HasType m.exe types object)
    (finds : FindsMethod m.exe types v slot w) {g : Function}
    (found : m.exe.functions[w.bits.toNat]? = some g) :
  HaveTypes m.exe types g.paramTys (args ++ [v]) ∧ m.exe.Fits g.returnType ty
  := by
  obtain ⟨handle, index, method, refers, same, there, rfl⟩ := finds
  have below := instance_.object handle refers
  rw [same] at below
  rw [Value.toNat_ofNat_bits method.function.toNat_lt] at found
  obtain ⟨ancestor, rfl⟩ := below.class_above
  have own : m.exe.method? (.class index) slot = some g := by
    rw [Executable.method?, Executable.classOf?, Ty.classIndex?, Option.bind_some, there]
    exact found
  obtain ⟨returns, inherited⟩ := wellTyped.overrides index ancestor slot f g below declared own
  obtain ⟨params', this', takes', receives⟩ := wellTyped.receivers index slot g own
  rw [takes, takes', List.dropLast_concat, List.dropLast_concat] at inherited
  subst inherited
  rw [takes', returns]
  refine ⟨List.rel_append (passed.fits fits) (.cons ⟨?_, ?_⟩ .nil), result⟩
  · intro handle' refers'
    cases refers.symm.trans refers'
    rw [same]
    exact receives
  · intro isFunction
    rw [receives.isFunction] at isFunction
    cases isFunction

/-- A call is of a function that takes the arguments and makes what the code goes on with. -/
theorem TypedAt.applies (here : m.TypedAt p types point plan plan' vs i)
    (wellTyped : p.WellTyped m.exe) (pc : point.pc = m.registers.pc) (fit : m.DefaultsFit p)
    (call : i.op = .invoke) :
  ∃ (us args : List Value) (v : Value) (tys : List Ty) (ty : Ty), vs = us ++ args ++ [v]
    ∧ args.length = point.args
    ∧ plan' = .plain (tys ++ [ty]) ∧ HaveTypes m.exe types tys us
    ∧ ∀ f, m.exe.functions[v.bits.toNat]? = some f →
      HaveTypes m.exe types f.paramTys args ∧ m.exe.Fits f.returnType ty
  := by
  obtain ⟨us, args, v, rfl, count, -, top⟩ := here.call_operands call
  obtain ⟨callee, values, tys, ty, called, rfl, form⟩ :=
    here.moves.of_invoke (here.op.symm.trans call)
  have typed := here.typed
  refine ⟨us, args, v, tys, ty, rfl, count, rfl, ?_⟩
  rcases form with ⟨noMethod, passes, rfl, result, params, isFunction, fits, goesOn⟩
    | ⟨m', object, k, f, params, this, rfl, passes, rfl, declared, takes, fits, goesOn⟩
  · obtain ⟨others, function⟩ := HaveTypes.split typed rfl
    obtain ⟨below, passed⟩ := HaveTypes.split others (by rw [List.length_map, count, passes])
    refine ⟨below, ?_⟩
    intro g found
    have value := (List.forall₂_cons.1 function).1
    have same : g.ty = callee.ty := by
      rcases value.function (by rw [isFunction]; rfl) with zero | ⟨g', found', same⟩
      · rw [zero] at found
        rw [pc] at called
        exact fit callee values called noMethod v g top zero found
      · cases found.symm.trans found'
        exact same
    rw [isFunction] at same
    cases same
    exact ⟨passed.fits fits, goesOn⟩
  · obtain ⟨us', v', w, same, typed', finds⟩ := typed
    -- the object is the last argument, and its method is on top of it
    obtain rfl | ⟨args, last, rfl⟩ := List.eq_nil_or_concat' args
    · rw [List.length_nil] at count
      omega
    rw [List.append_cons us' v' [w]] at same
    obtain ⟨same, top'⟩ := List.append_inj' same rfl
    rw [← List.append_assoc] at same
    obtain ⟨rfl, last'⟩ := List.append_inj' same rfl
    cases top'
    cases last'
    rw [List.length_append, List.length_singleton] at count
    obtain ⟨others, instance_⟩ := HaveTypes.split typed' rfl
    obtain ⟨below, passed⟩ := HaveTypes.split others (by rw [List.length_map]; omega)
    refine ⟨below, ?_⟩
    intro g found
    exact applies_of_dispatches wellTyped declared takes fits goesOn passed
      (List.forall₂_cons.1 instance_).1 finds found

/-- An instruction of a typed machine leaves a typed machine. -/
theorem Typed.execute (typed : m.Typed p types) (sheltered : m.Sheltered p entry)
    (wellTyped : p.WellTyped m.exe) (inRange : p.SlotsInRange) (small : m.heap.Small)
    (here : m.TypedAt p types point plan plan' vs i) (pc : point.pc = m.registers.pc)
    (fit : m.DefaultsFit p) :
  LeavesTyped p (Machine.execute i (m.advanced i))
  := by
  have proper := sheltered.compiled.proper inRange here.listed
  have plain (plainOp : i.op.isPlain) :=
    typed.plain sheltered small here (here.reads_eq proper plainOp) plainOp
  have invoke (call : i.op = .invoke) : LeavesTyped p (Machine.execute i (m.advanced i)) := by
    obtain ⟨us, args, v, tys, ty, rfl, count, rfl, below, applies⟩ :=
      here.applies wellTyped pc fit call
    exact typed.invoke sheltered wellTyped small here.toAt call count below
      (here.goesOn (by simp [call, Op.isJump]) (by simp [call])) applies
  have moves := here.moves
  generalize same : point.toDirective = d at moves
  have op : i.op = d.op := by rw [← same, here.op]
  have operand : point.operand = d.operand := by rw [← same]
  cases moves with
  | jump op₁ => exact typed.jump sheltered small here proper (op.trans op₁)
  | drop op₁ =>
    rcases op₁ with op₁ | op₁ | op₁
    · exact plain (by rw [op, op₁]; rfl)
    · exact typed.jumpIf sheltered small here proper true (op.trans op₁)
    · exact typed.jumpIf sheltered small here proper false (op.trans op₁)
  | make makes => exact plain (by rw [op]; exact Op.isPlain_of_makes? makes)
  | zero => exact plain (by rw [op]; rfl)
  | @load site kind place _ _ _ frame declared fits =>
    cases place with
    | «local» slot => exact typed.pushStack sheltered inRange small here op operand frame declared fits
    | global index => exact plain (by rw [op]; rfl)
  | @store site kind place _ _ _ frame declared fits =>
    cases place with
    | «local» slot => exact typed.popStack sheltered inRange here op operand frame declared fits
    | global index => exact plain (by rw [op]; rfl)
  | call | callMethod => exact invoke op
  | ret op₁ fits => exact typed.ret sheltered here (op.trans op₁) fits
  | null op₁ | function op₁ | duplicate op₁ | element op₁ | setElement op₁ | field op₁ | setField op₁
  | method op₁ | new op₁ | newArray op₁ | arrayLiteral op₁ | downCast op₁ =>
    exact plain (by rw [op, op₁]; rfl)

/-! ### What a typed machine is about to do -/

theorem exists_fetched (compiled : CompiledFrom p m.exe) (listed : point ∈ p.points m.registers.current)
    (pc : point.pc = m.registers.pc) :
  ∃ i, fetch m.code m.registers.pc = .ok i
  := by
  obtain ⟨block, coded⟩ := compiled.exists_code listed
  obtain ⟨operand, planned, -⟩ := (compiled.encodes coded).fetch_eq_ok listed
  have code : m.code = block.code := by simp [Machine.code, coded]
  exact ⟨_, by rw [code, ← pc, planned]⟩

theorem Typed.callFits (typed : m.Typed p types) (sheltered : m.Sheltered p entry)
    (wellTyped : p.WellTyped m.exe) (fit : m.DefaultsFit p) :
  m.CallFits p
  := by
  intro point listed pc call v f top found
  obtain ⟨i, fetched⟩ := exists_fetched sheltered.compiled listed pc
  obtain ⟨point', plan, plan', vs, here, pc'⟩ :=
    typed.at_fetched sheltered.framed sheltered.compiled fetched
  obtain rfl := Piece.eq_of_mem_points listed here.listed (pc.trans pc'.symm)
  obtain ⟨us, args, v', tys, ty, rfl, count, -, -, applies⟩ :=
    here.applies wellTyped pc fit (here.op.trans call)
  have sp := here.holds.sp_eq
  have last := here.holds.upper.cell 0 v' rfl
  rw [List.length_append, List.length_singleton] at sp
  rw [show m.stack.sp - 1 = m.operandBase + (us ++ args).length + 0 by omega, last] at top
  cases top
  rw [← count, ← (applies f found).1.length_eq, Function.paramTys, List.length_map]

theorem Typed.storeFits (typed : m.Typed p types) (sheltered : m.Sheltered p entry) :
  m.StoreFits
  := by
  intro i kind target v fetched store top second
  obtain ⟨point, plan, plan', vs, here, -⟩ :=
    typed.at_fetched sheltered.framed sheltered.compiled fetched
  obtain ⟨k, tys, object, ty, ty', rfl, operand, declared, fits⟩ :=
    here.moves.of_popField (here.op.symm.trans store)
  obtain ⟨us, ws, rfl, -, upper⟩ := here.split
  rw [Directive.takes, ← here.op, store] at upper
  obtain ⟨v', target', rfl⟩ := List.length_eq_two.1 upper
  obtain ⟨-, operands⟩ := HaveTypes.split here.typed rfl
  obtain ⟨value, object_⟩ := List.forall₂_cons.1 operands
  have held := here.holds.upper
  have sp := held.sp_eq
  rw [List.length_cons, List.length_singleton] at sp
  rw [show m.stack.sp - 1 = m.operandBase + us.length + 1 by omega, held.cell 1 _ rfl] at top
  rw [show m.stack.sp - 2 = m.operandBase + us.length + 0 by omega, held.cell 0 _ rfl] at second
  cases top
  cases second
  rw [here.number_eq operand]
  intro class_ fields c decl isInstance found there refers
  obtain ⟨-, below, -⟩ :=
    class_of_isInstance typed.store (List.forall₂_cons.1 object_).1 isInstance
  have same := below.fieldTy? sheltered.compiled declared
  rw [Executable.fieldTy?, Executable.classOf?, Ty.classIndex?, Option.bind_some, found,
    Option.bind_some, there] at same
  cases same
  by_contra noReference
  exact refers ((value.fits fits).handle?_eq_none (by simpa using noReference))

/-! ### Steps -/

/-- A collection keeps a machine typed: what is left is as it was. -/
theorem Typed.thinned (typed : m.Typed p types) (thinned : m.Thinned m') :
  m'.Typed p types
  := by
  have heap := typed.store.heap.of_get? thinned.get?
  obtain ⟨host, rfl⟩ := thinned.same
  exact ⟨⟨heap, typed.store.globals⟩, typed.frames, typed.operands⟩

theorem Typable.store (typable : m.Typable p) :
  m.StoreTypable
  := by
  intro small
  obtain ⟨types, typed⟩ := typable small
  exact ⟨types, typed.store⟩

/-- Whether or not a collection fails, it leaves objects as they were and the slots that there are. -/
theorem Guarded.thinned_collect {floor : Nat} (guarded : m.Guarded floor) :
  m.Thinned (stateOf (Machine.collect m))
    ∧ (m.heap.Small → (stateOf (Machine.collect m)).heap.Small)
  := by
  rw [collect_eq]
  split
  all_goals exact ⟨⟨⟨_, rfl⟩, fun _ _ found => guarded.secure.sound.get?_of_reclaim found⟩,
    (m.heap.small_reclaim m.roots).2⟩

theorem Guarded.thinned_collectIfDue {floor : Nat} (guarded : m.Guarded floor) :
  m.Thinned (stateOf (Machine.collectIfDue m))
    ∧ (m.heap.Small → (stateOf (Machine.collectIfDue m)).heap.Small)
  := by
  rw [collectIfDue_eq]
  split
  · have thinned := guarded.thinned_collect
    rw [stateOf_bind]
    cases ran : Machine.collect m with
    | ok count m₁ | error trap m₁ =>
      rw [ran] at thinned
      exact thinned
  · exact ⟨⟨⟨_, rfl⟩, fun _ _ found => found⟩, id⟩

/-- The machine is typed and has no dangling handles. -/
structure Sound (p : Program) (m : Machine) : Prop where
  sheltered : m.Sheltered p 0
  typed : ∃ types, m.Typed p types

/-- The host may turn to the machine: nothing dangles, and objects and globals are typed. -/
structure Settled (p : Program) (m : Machine) : Prop where
  rested : m.Rested p
  typed : ∃ types, m.TypedBy types

/-- A step of a typed machine. -/
theorem Sound.step (sound : m.Sound p) (wellTyped : p.WellTyped m.exe) (inRange : p.SlotsInRange)
    (small : m.heap.Small) (fit : m.DefaultsFit p) :
  Ends (fun next m' => m'.StoreTypable ∧ (next = .running → m'.Typable p))
    (fun _ m' => m'.StoreTypable) (Machine.step m)
  := by
  obtain ⟨sheltered, types, typed⟩ := sound
  have collects := sheltered.guarded.collectIfDue
  obtain ⟨thinned, keepsSmall⟩ := sheltered.guarded.thinned_collectIfDue
  have typed₁ := typed.thinned thinned
  have small₁ := keepsSmall small
  rw [step_eq]
  cases collected : Machine.collectIfDue m with
  | error trap m₁ =>
    rw [collected] at typed₁
    exact fun _ => ⟨types, typed₁.store⟩
  | ok _ m₁ =>
    rw [collected] at collects
    rw [collected, stateOf_ok] at thinned typed₁ small₁
    have guarded := collects.1
    obtain ⟨host, rfl⟩ := thinned.same
    have sheltered₁ : { m with host }.Sheltered p 0 :=
      ⟨sheltered.compiled, sheltered.harmless, sheltered.framed.hosted host, guarded⟩
    dsimp only
    split
    · exact ⟨fun _ => ⟨types, typed₁.store⟩, nofun⟩
    · split
      · exact fun _ => ⟨types, typed₁.store⟩
      · next i fetched =>
          obtain ⟨point, plan, plan', vs, here, pc⟩ :=
            typed₁.at_fetched sheltered₁.framed sheltered₁.compiled fetched
          have executed := typed₁.execute sheltered₁ wellTyped inRange small₁ here pc fit
          split
          · next ran =>
              rw [ran] at executed
              exact executed
          · next ran =>
              rw [ran] at executed
              exact ⟨executed.2.store, fun _ => executed.2⟩
          · next ran =>
              rw [ran] at executed
              cases executed.1

/-- Types rule out the calls and the stores that would leave a dangling handle. -/
theorem Sound.sheltered_step (sound : m.Sound p) (wellTyped : p.WellTyped m.exe)
    (inRange : p.SlotsInRange) (fit : m.DefaultsFit p) :
  Ends (fun next m' => m'.Guarded 0 ∧ (next = .running → m'.Sheltered p 0)) (Fails 0 (StepCrash m))
    (Machine.step m)
  := by
  obtain ⟨sheltered, types, typed⟩ := sound
  exact sheltered.step inRange (typed.callFits sheltered wellTyped fit) (typed.storeFits sheltered)

/-! ### Runs -/

/-- A typed machine stays so along a run. -/
theorem Sound.of_reaches {start : Machine} (sound : start.Sound p) (wellTyped : p.WellTyped start.exe)
    (inRange : p.SlotsInRange) (reaches : Reaches (DefaultsFit p) start m) (small : m.heap.Small) :
  m.Sound p
  := by
  induction reaches with
  | refl => exact sound
  | @step m m' reached fit stepped ih =>
    have harmless : m.Harmless := (StaysSmall.law.reaches reached sound.sheltered.harmless).1
    have back := (StaysSmall.law.step m harmless).2
    rw [stepped] at back
    have before := ih (back small)
    rw [← reached.sameProgram.exe] at wellTyped
    have kept := before.sheltered_step wellTyped inRange fit
    have kept' := before.step wellTyped inRange (back small) fit
    rw [stepped] at kept kept'
    exact ⟨kept.2 rfl, kept'.2 rfl small⟩

/-- The host binds native functions that leave the heap alone, runs the top level and collects
garbage, but calls no functions, and calls of functions that have never been set meet a function of
the right type. -/
def Usage.topLevel (p : Program) : Usage where
  links registry := ∀ native ∈ registry.natives, native.Benign
  args _ _ := False
  fits := DefaultsFit p

/-- Where a run has ended, in whichever way, nothing dangles, and objects and globals are typed. -/
theorem Sound.resume {start : Machine} (sound : start.Sound p) (wellTyped : p.WellTyped start.exe)
    (inRange : p.SlotsInRange) (used : UsedBy (.topLevel p) start) (fuel : Nat)
    (small : (resume fuel start).2.heap.Small) :
  (resume fuel start).2.Guarded 0 ∧ ∃ types, (resume fuel start).2.TypedBy types
  := by
  obtain ⟨m, reaches, ends | ends⟩ := exists_resume_eq fuel start
  · rw [ends] at small ⊢
    have there := sound.of_reaches wellTyped inRange (used.reaches reaches) small
    obtain ⟨types, typed⟩ := there.typed
    exact ⟨there.sheltered.guarded, types, typed.store⟩
  · rw [ends] at small ⊢
    have harmless : m.Harmless := (StaysSmall.law.reaches reaches sound.sheltered.harmless).1
    have back := (StaysSmall.law.step m harmless).2 small
    have there := sound.of_reaches wellTyped inRange (used.reaches reaches) back
    rw [← reaches.sameProgram.exe] at wellTyped
    have fit := used m reaches
    have kept := there.sheltered_step wellTyped inRange fit
    have kept' := there.step wellTyped inRange back fit
    cases ran : Machine.step m with
    | ok next m' =>
      rw [ran] at kept kept' small
      exact ⟨kept.1, kept'.1 small⟩
    | error trap m' =>
      rw [ran] at kept kept' small
      exact ⟨kept.1, kept' small⟩

/-! ### Sessions -/

theorem Settled.restart (settled : m.Settled p) (wellTyped : p.WellTyped m.exe) :
  m.restart.Sound p
  := by
  obtain ⟨rested, types, typed⟩ := settled
  refine ⟨rested.start .run, types, ⟨typed.heap, typed.globals⟩, ⟨[], .topLevel, nofun⟩, .plain [], [],
    ?_, ⟨rfl, Nat.zero_le _, nofun⟩, .nil⟩
  apply wellTyped.awaits_start rested.compiled
  rcases p.lands_points_topLevel with lands | empty
  · exact .inl lands
  · exact .inr ⟨rfl, empty.symm⟩

/-- Globals start with values of their types. -/
theorem exists_typedBy_ofStack {config : Config} {clock : Int64} {stack : Stack}
    (small : (ofStack exe config clock stack).heap.Small) :
  ∃ types, (ofStack exe config clock stack).TypedBy types
  := by
  let masks := exe.classes.map Class.referenceFields
  let heap := Heap.new config.gcThreshold config.gcThresholdIncrement masks
  let types : HeapTyping := ⟨fun _ => .string, fun _ => rfl⟩
  have sound := Heap.Sound.new config.gcThreshold config.gcThresholdIncrement masks
  have none : heap.TypedBy exe types := by
    intro handle o found
    cases found
  obtain ⟨types', -, typed, values⟩ :=
    none.defaultValues sound (exe.globals.toList.map VariableDecl.ty) small
  refine ⟨types', typed, ?_⟩
  intro k v decl found declared
  change (heap.defaultValues _).1.toArray[k]? = some v at found
  change exe.globals[k]? = some decl at declared
  rw [List.getElem?_toArray] at found
  obtain ⟨ty, there, value⟩ := exists_of_forall₂_getElem? values found
  rw [List.getElem?_map, Array.getElem?_toList, declared] at there
  cases there
  exact value

theorem Session.harmless_topLevel (session : Session exe (.topLevel p) m) :
  m.Harmless
  := session.harmless fun _ benign => benign

/-- Between the requests of the host nothing dangles, and objects and globals are typed. -/
theorem Session.settled (compiled : CompiledFrom p exe) (wellTyped : p.WellTyped exe)
    (inRange : p.SlotsInRange) (session : Session exe (.topLevel p) m) (small : m.heap.Small) :
  m.Settled p
  := by
  have settle {m : Machine} (session : Session exe (.topLevel p) m)
      (kept : m.Guarded m.stack.sp ∧ ∃ types, m.TypedBy types) : m.Settled p :=
    ⟨⟨session.exe_eq ▸ compiled, session.linked, session.harmless_topLevel, kept.1⟩, kept.2⟩
  apply settle session
  induction session with
  | start made =>
    obtain ⟨stack, fresh, rfl⟩ := Option.map_eq_some_iff.1 made
    exact ⟨(guarded_ofStack (sp_of_tryNew fresh) _).atTop, exists_typedBy_ofStack small⟩
  | link _ _ ih =>
    obtain ⟨guarded, types, typed⟩ := ih small
    exact ⟨guarded.link _, types, typed.heap, typed.globals⟩
  | @run m fuel session used ih =>
    have back := (StaysSmall.law.run fuel m session.harmless_topLevel).2 small
    have settled := settle session (ih back)
    rw [← session.exe_eq] at wellTyped
    obtain ⟨guarded, typed⟩ :=
      (settled.restart wellTyped).resume wellTyped inRange used fuel small
    exact ⟨guarded.atTop, typed⟩
  | call _ _ _ impossible => exact absurd impossible id
  | @collect m session ih =>
    have back := (StaysSmall.law.collect m session.harmless_topLevel).2 small
    obtain ⟨guarded, types, typed⟩ := ih back
    refine ⟨guarded.stateOf_collect.atTop, types, ?_⟩
    obtain ⟨thinned, -⟩ := guarded.thinned_collect
    have heap := typed.heap.of_get? thinned.get?
    obtain ⟨host, collected⟩ := thinned.same
    rw [collected] at heap ⊢
    exact ⟨heap, typed.globals⟩

/-! ### Calls of function values -/

/-- The type with which a function that is named is declared, or what is read. -/
def declaredTy? (exe : Executable) (current : Option Nat) : Expr → Option Ty
  | .function _ i => (exe.functions[i.toNat]?).map Function.ty
  | .call _ (.method _ object i) _ => (exe.method? object.ty i.toNat).map Function.returnType
  | .call _ callee _ =>
    match callee.ty with
    | .function result _ => some result
    | _ => none
  | e => exe.placeTy? current e

/-- An expression of a function type is declared with that type, and a call of a function value has
as many arguments as its type has parameters. Of what is stored nothing is said. -/
def Declares (exe : Executable) (current : Option Nat) : Construct → Prop
  | .expr e => (e.ty.isFunction = true → declaredTy? exe current e = some e.ty)
      ∧ ∀ m callee args, e = .call m callee args → callee.isMethod = false →
        ∃ result params, callee.ty = .function result params ∧ params.length = args.length
  | .stmt _ _ => True

end Machine

end Bytecode
