import Mathlib
import Bytecode.Proofs.Semantics.Calling

/-!
# Expressions are computed as they are evaluated

`Setting.Performs` says that a piece of code, wherever it is placed and whatever operands it
finds, comes to what an evaluation comes to. The code of an expression performs its evaluation and
leaves the value on top of the operands: `Setting.performs_expr`, by induction on the expression.
-/

namespace Bytecode

open Machine

/-- Operands of whole numbers are compared and combined as such. -/
theorem OperandKind.ofTypes_of_scalar {lhs rhs : Ty} (whole : lhs.isScalar)
    (whole' : rhs.isScalar) :
  OperandKind.ofTypes lhs rhs = .int
  := by
  cases lhs with
  | void | boolean | int =>
    cases rhs with
    | void | boolean | int => rfl
    | _ => cases whole'
  | _ => cases whole

namespace Setting

variable {s : Setting} {a : Activation} {site : Site} {position : Position} {aims : Aim → Nat}
  {pc depth n : Nat} {us : List Int64} {store : Store} {m : Machine} {α β : Type}
  {call : Nat → List Int64 → Eval Int64}
variable {q : Piece} {leaves : α → List Int64}

/-! ### Pieces of the code -/

/-- The instructions of a piece that starts at a place with so many operands are among those of
the code that runs. -/
def Placed (s : Setting) (a : Activation) (aims : Aim → Nat) (pc depth : Nat) (q : Piece) : Prop :=
  ∀ point ∈ q.points aims pc depth, point ∈ s.program.points a.current

theorem Placed.seq {q r : Piece} {rise : Nat} (placed : s.Placed a aims pc depth (q.seq rise r)) :
  s.Placed a aims pc depth q ∧ s.Placed a aims (pc + q.size) (depth + rise) r
  := ⟨fun point listed => placed point (List.mem_append_left _ listed),
    fun point listed => placed point (List.mem_append_right _ listed)⟩

theorem Placed.mark {q r : Piece} {rise : Nat} {aim : Aim}
    (placed : s.Placed a aims pc depth (.mark aim q rise r)) :
  s.Placed a (Function.update aims aim (pc + q.size)) pc depth q
    ∧ s.Placed a (Function.update aims aim (pc + q.size)) (pc + q.size) (depth + rise) r
  := ⟨fun point listed => placed point (List.mem_append_left _ listed),
    fun point listed => placed point (List.mem_append_right _ listed)⟩

/-- The instruction that a piece consists of. -/
theorem Placed.one {i : Directive} (placed : s.Placed a aims pc depth (site.one position i)) :
  { i with pc, depth, line := site.lineOf position } ∈ s.program.points a.current
  := placed _ (List.mem_singleton_self _)

theorem Placed.jump {op : Op} {aim : Aim}
    (placed : s.Placed a aims pc depth (site.jump position op aim)) :
  { op, operand := .number (aims aim), pc, depth, line := site.lineOf position }
    ∈ s.program.points a.current
  := placed _ (List.mem_singleton_self _)

theorem Mirrors.at_ {pc' : Nat} (here : s.Mirrors a pc us store m) (same : pc = pc') :
  s.Mirrors a pc' us store m
  := same ▸ here

/-- The number of parameters and locals of the code that runs. -/
def slots (s : Setting) (a : Activation) : Nat :=
  (s.program.frame a.current).1 + (s.program.frame a.current).2

/-! ### Pieces that perform an evaluation -/

/-- Wherever the piece is placed, a machine that comes to it with the given operands comes to what
the evaluation comes to, and has the operands as described behind the piece. -/
def Performs (s : Setting) (n : Nat) (a : Activation) (q : Piece) (us : List Int64) (x : Eval α)
    (leaves : α → List Int64) : Prop :=
  ∀ (aims : Aim → Nat) (pc : Nat) (store : Store) (m : Machine),
    s.Placed a aims pc us.length q → s.Mirrors a pc us store m →
    s.Follows n m (fun v => s.Mirrors a (pc + q.size) (leaves v)) (x store)

theorem performs_empty {v : α} (same : us = leaves v) :
  s.Performs n a .empty us (pure v) leaves
  := fun _ _ _ _ _ here => .done (same ▸ here)

theorem Performs.seq {q r : Piece} {rise : Nat} {x : Eval α} {f : α → Eval β}
    {leaves : α → List Int64} {leaves' : β → List Int64} (first : s.Performs n a q us x leaves)
    (rises : ∀ v, (leaves v).length = us.length + rise)
    (second : ∀ v, s.Performs n a r (leaves v) (f v) leaves') :
  s.Performs n a (q.seq rise r) us (x >>= f) leaves'
  := by
  intro aims pc store m placed here
  apply (first aims pc store m placed.seq.1 here).bind
  intro v store' m' there
  have placed' := placed.seq.2
  rw [← rises v] at placed'
  apply (second v aims _ store' m' placed' there).mono (Nat.le_refl n)
  intro w store'' m'' after
  exact after.at_ (Nat.add_assoc ..)

theorem Performs.map {x : Eval α} {leaves' : β → List Int64} {g : α → β}
    (performs : s.Performs n a q us x leaves) (same : ∀ v, leaves v = leaves' (g v)) :
  s.Performs n a q us (do return g (← x)) leaves'
  := by
  intro aims pc store m placed here
  apply (performs aims pc store m placed here).bind
  intro v store' m' after
  rw [same v] at after
  exact .done after

/-- Two operands, one after the other, and what is made of them. -/
theorem Performs.binary {r o : Piece} {x y : Eval Int64} {f : Int64 → Int64 → Eval β}
    {leaves : β → List Int64} (first : s.Performs n a q us x (fun v => us ++ [v]))
    (second : ∀ us, s.Performs n a r us y (fun w => us ++ [w]))
    (last : ∀ v w, s.Performs n a o (us ++ [v, w]) (f v w) leaves) :
  s.Performs n a ((q.seq 1 r).seq 2 o) us (do f (← x) (← y)) leaves
  := by
  have operands : s.Performs n a (q.seq 1 r) us (do return (← x, ← y))
      fun pair => us ++ [pair.1, pair.2] := by
    apply first.seq fun _ => by simp
    intro v
    exact (second (us ++ [v])).map fun w => by simp
  have whole : s.Performs n a ((q.seq 1 r).seq 2 o) us _ leaves :=
    operands.seq (fun _ => by simp) fun pair => last pair.1 pair.2
  simp only [bind_assoc, pure_bind] at whole
  exact whole

/-- A single instruction that always has a result. -/
theorem performs_one {i : Directive} {x : Eval α}
    (steps : ∀ (point : Point) (store : Store) (m : Machine), point.toDirective = i →
      point ∈ s.program.points a.current → us.length = point.depth →
      s.Mirrors a point.pc us store m →
      ∃ v store', x store = .ok v store' ∧ s.Steps m (s.Mirrors a point.next (leaves v) store')) :
  s.Performs n a (site.one position i) us x leaves
  := by
  intro aims pc store m placed here
  obtain ⟨v, store', run, stepped⟩ := steps _ store m rfl placed.one rfl here
  rw [run]
  exact .step stepped fun m' after => .done after

section Instructions

variable (room : a.base + s.program.width ≤ s.bound)
include room

/-- An instruction that replaces the operands on top by values that follow from them. -/
theorem performs_plain {i : Directive} {ws : List Int64} {leaves : α → List Int64} (v : α)
    (computes : ∀ (point : Point) (instruction : Instruction) (store : Store) (m : Machine),
      point.toDirective = i → s.Fetches point m instruction →
      s.Computes instruction ws store (leaves v) store) :
  s.Performs n a (site.one position i) (us ++ ws) (pure v) (fun v => us ++ leaves v)
  := by
  apply performs_one
  intro point store m directive listed count here
  refine ⟨v, store, rfl, ?_⟩
  apply here.plain listed count room
  intro instruction fetches
  exact computes point instruction store m directive fetches

/-- An instruction that pushes a value. -/
theorem performs_push {i : Directive} (v : Int64)
    (computes : ∀ (point : Point) (instruction : Instruction) (store : Store) (m : Machine),
      point.toDirective = i → s.Fetches point m instruction →
      s.Computes instruction [] store [v] store) :
  s.Performs n a (site.one position i) us (pure v) (fun v => us ++ [v])
  := by
  have pushed : s.Performs n a (site.one position i) (us ++ []) (pure v) fun v => us ++ [v] :=
    performs_plain room v computes
  rw [List.append_nil] at pushed
  exact pushed

theorem performs_duplicate (v : Int64) :
  s.Performs n a (site.one position { op := .duplicate }) (us ++ [v]) (pure v)
    (fun v => us ++ [v, v])
  := performs_plain room v fun _ _ _ _ directive fetches => fetches.computes_duplicate directive v

theorem Performs.doubled {q : Piece} {x : Eval Int64}
    (performs : s.Performs n a q us x (fun v => us ++ [v])) :
  s.Performs n a (q.seq 1 (site.one position { op := .duplicate })) us x (fun v => us ++ [v, v])
  := by
  have twice : s.Performs n a (q.seq 1 (site.one position { op := .duplicate })) us (x >>= pure)
      fun v => us ++ [v, v] :=
    performs.seq (fun _ => by simp) (performs_duplicate room)
  rw [bind_pure] at twice
  exact twice

theorem performs_pop (v : Int64) :
  s.Performs n a (site.one position { op := .pop }) (us ++ [v]) (pure ()) (fun _ => us)
  := by
  have popped : s.Performs n a (site.one position { op := .pop }) (us ++ [v]) (pure ())
      fun _ => us ++ [] :=
    performs_plain room () fun _ _ _ _ directive fetches => fetches.computes_pop directive v
  rw [List.append_nil] at popped
  exact popped

/-- Arithmetic has a result or ends the run with a fault at its line. -/
theorem performs_arith (op : ArithOp) (v w : Int64) :
  s.Performs n a (site.one position { op := .arithInt op }) (us ++ [v, w])
    (Eval.wrapped ⟨a.current, site.lineOf position⟩ (op.onIntegers v.toInt w.toInt))
    (fun r => us ++ [r])
  := by
  have same := op.onInts_eq v w
  cases result : op.onIntegers v.toInt w.toInt with
  | some exact =>
    rw [result] at same
    exact performs_plain room _
      fun _ _ _ _ directive fetches => fetches.computes_arith directive same
  | none =>
    rw [result] at same
    intro aims pc store m placed here
    exact .inr (here.divides placed.one rfl same)

end Instructions

/-- A variable is read with the value that the store has for it. -/
theorem performs_load (room : a.base + s.program.width ≤ s.bound) {place : Variable} (ty : Ty)
    (inRange : place.inRange s.program (s.slots a)) :
  s.Performs n a (site.one position (.load (s.program.frame a.current).1 ty place)) us
    (do return (← get).read place) (fun v => us ++ [v])
  := by
  apply performs_one
  intro point store m directive listed count here
  rw [slots, ← here.localCount] at inRange
  exact ⟨_, store, rfl, here.loads listed count room inRange directive⟩

theorem performs_store (room : a.base + s.program.width ≤ s.bound) {place : Variable} (ty : Ty)
    (inRange : place.inRange s.program (s.slots a)) (v : Int64) :
  s.Performs n a (site.one position (.store (s.program.frame a.current).1 ty place)) (us ++ [v])
    (modify (Store.write place v)) (fun _ => us)
  := by
  apply performs_one
  intro point store m directive listed count here
  rw [slots, ← here.localCount] at inRange
  exact ⟨_, _, rfl, here.stores listed count room inRange directive⟩

/-- The second operand is evaluated only if the first one does not settle the result. -/
theorem performs_skip {r : Piece} {x y : Eval Int64} {f : Int64 → Eval Int64} {skip : Op}
    (room : a.base + s.program.width ≤ s.bound) (truth : Bool)
    (skips : skip = if truth then .jumpIfTrue else .jumpIfFalse)
    (settles : ∀ v, f v = if decide (v ≠ 0) = truth then pure v else y)
    (first : s.Performs n a q us x (fun v => us ++ [v]))
    (second : s.Performs n a r us y (fun v => us ++ [v])) :
  s.Performs n a
    (.mark .done
      ((((q.seq 1 (site.one position { op := .duplicate })).seq 2
        (site.jump position skip .done)).seq 1 (site.one position { op := .pop })).seq 0 r)
      1 .empty)
    us (x >>= f) (fun v => us ++ [v])
  := by
  intro aims pc store m placed here
  obtain ⟨most, placedSecond⟩ := placed.mark.1.seq
  obtain ⟨most, placedPop⟩ := most.seq
  obtain ⟨placedFirst, placedJump⟩ := most.seq
  apply (first.doubled room _ pc store m placedFirst here).bind
  intro v store' m' there
  dsimp only at there
  rw [← List.singleton_append, ← List.append_assoc] at there
  rw [settles]
  apply Follows.step (there.jumpsIf placedJump.jump truth skips rfl)
  intro m'' after
  by_cases settled : decide (v ≠ 0) = truth
  · rw [if_pos settled, Function.update_self] at after
    rw [if_pos settled]
    exact .done after
  · rw [if_neg settled] at after
    rw [if_neg settled, ← pure_bind () fun _ => y]
    have count : (us ++ [v]).length = us.length + 1 := by simp
    rw [← count] at placedPop
    apply (performs_pop room v _ _ store' m'' placedPop (after.at_ (Nat.add_assoc ..))).bind
    intro _ store'' m'' there
    apply (second _ _ _ _ placedSecond (there.at_ (Nat.add_assoc ..))).mono (Nat.le_refl n)
    intro w store m after
    exact after.at_ (Nat.add_assoc ..)

/-! ### Expressions -/

/-- A machine at a call comes to what the given evaluation of calls comes to. -/
def FollowsCalls (s : Setting) (n : Nat) (a : Activation)
    (call : Nat → List Int64 → Eval Int64) : Prop :=
  ∀ (point : Point) (index : Nat) (us args : List Int64) (store : Store) (m : Machine),
    s.Mirrors a point.pc (us ++ args ++ [.ofNat index]) store m →
    point ∈ s.program.points a.current →
    (us ++ args ++ [Int64.ofNat index]).length = point.depth → point.op = .invoke →
    index < 65536 → s.program.defines index args.length →
    s.Follows n m (fun v => s.Mirrors a point.next (us ++ [v])) (call index args store)

/-- The site is one of the code that runs, and there is room for its operands. -/
structure Runs (s : Setting) (n : Nat) (a : Activation) (site : Site)
    (call : Nat → List Int64 → Eval Int64) : Prop where
  params : site.params = (s.program.frame a.current).1
  returns : site.returns.isScalar
  room : a.base + s.program.width ≤ s.bound
  calls : s.FollowsCalls n a call

theorem length_evals {locus : Locus} {es : List Expr} {vs : List Int64} {store' : Store}
    (run : Expr.evals call locus es store = .ok vs store') :
  vs.length = es.length
  := by
  induction es generalizing store vs store' with
  | nil =>
    obtain ⟨rfl, -⟩ := pure_eq_ok.1 run
    rfl
  | cons e rest ih =>
    obtain ⟨v, store₁, -, run⟩ := bind_eq_ok.1 run
    obtain ⟨ws, store₂, run', ret⟩ := bind_eq_ok.1 run
    obtain ⟨rfl, -⟩ := pure_eq_ok.1 ret
    rw [List.length_cons, List.length_cons, ih run']

/-- A call of a function of the program, given its arguments. -/
theorem Runs.performs_call (runs : s.Runs n a site call) {args : Nat} {x : Eval (List Int64)}
    {position' : Position} (index : UInt16) (defined : s.program.defines index.toNat args)
    (first : s.Performs n a q us x (fun vs => us ++ vs))
    (count : ∀ store vs store', x store = .ok vs store' → vs.length = args) :
  s.Performs n a
    ((q.seq args (site.one position { op := .pushFunction, operand := .number index.toNat })).seq
      (args + 1) (site.one position' (.invoke args)))
    us (do call index.toNat (← x)) (fun v => us ++ [v])
  := by
  intro aims pc store m placed here
  obtain ⟨most, placedCall⟩ := placed.seq
  obtain ⟨placedFirst, placedPush⟩ := most.seq
  apply (first aims pc store m placedFirst here).known.bind
  intro vs store' m' ⟨run, there⟩
  have length := count _ _ _ run
  have depth : (us ++ vs).length = us.length + args := by rw [List.length_append, length]
  rw [← depth] at placedPush
  apply Follows.step (there.pushes placedPush.one rfl runs.room
    fun _ fetches => fetches.computes_pushFunction rfl)
  intro m'' ready
  have called := runs.calls _ index.toNat us vs store' m'' (ready.at_ (Nat.add_assoc ..))
    placedCall.one (by simp [length]) rfl index.toNat_lt (by rwa [length])
  apply called.mono (Nat.le_refl n)
  intro v store m after
  exact after.at_ (Nat.add_assoc ..)

mutual

/-- The code of an expression performs its evaluation and leaves the value. -/
theorem performs_expr (runs : s.Runs n a site call) :
  (e : Expr) → e.isScalar s.program (s.slots a) → ∀ us : List Int64,
    s.Performs n a (e.piece site) us (e.eval call ⟨a.current, site.line⟩) (fun v => us ++ [v])
  | .boolean _ value, _, _ =>
      performs_push runs.room (truth value)
        fun _ _ _ _ directive fetches => fetches.computes_bool directive
  | .int _ value, _, _ =>
      performs_push runs.room value
        fun _ _ _ _ directive fetches => fetches.computes_int directive
  | .var m place, scalar, us => by
      rw [Expr.piece, Expr.eval, runs.params]
      exact performs_load runs.room m.ty (Bool.and_eq_true_iff.1 scalar).2
  | .assign m (.var t place) value, scalar, us => by
      simp only [Expr.isScalar, Bool.and_eq_true] at scalar
      rw [Expr.piece, Expr.storePiece, Expr.eval, runs.params]
      apply ((performs_expr runs value scalar.2.2.2 us).doubled runs.room).seq fun _ => by simp
      intro v
      have stored : s.Performs n a (site.one m.position (.store _ t.ty place))
          ((us ++ [v]) ++ [v]) _ _ := performs_store runs.room t.ty scalar.2.2.1 v
      rw [List.append_assoc] at stored
      exact stored.map fun _ => rfl
  | .binary m .and lhs rhs, scalar, us => by
      simp only [Expr.isScalar, Bool.and_eq_true] at scalar
      rw [Expr.piece, Expr.eval]
      apply performs_skip runs.room false rfl _ (performs_expr runs lhs scalar.2.1 us)
        (performs_expr runs rhs scalar.2.2 us)
      intro v
      simp
  | .binary m .or lhs rhs, scalar, us => by
      simp only [Expr.isScalar, Bool.and_eq_true] at scalar
      rw [Expr.piece, Expr.eval]
      apply performs_skip runs.room true rfl _ (performs_expr runs lhs scalar.2.1 us)
        (performs_expr runs rhs scalar.2.2 us)
      intro v
      by_cases zero : v = 0
      all_goals simp [zero]
  | .binary m (.arith op) lhs rhs, scalar, us => by
      simp only [Expr.isScalar, Bool.and_eq_true] at scalar
      have kind := OperandKind.ofTypes_of_scalar (Expr.isScalar_ty scalar.2.1)
        (Expr.isScalar_ty scalar.2.2)
      rw [Expr.piece, Expr.eval]
      simp only [Gen.shortCut?, Gen.binaryOp, kind, OperandKind.arithOp]
      exact (performs_expr runs lhs scalar.2.1 us).binary (performs_expr runs rhs scalar.2.2)
        (performs_arith runs.room op)
  | .binary m (.compare op) lhs rhs, scalar, us => by
      simp only [Expr.isScalar, Bool.and_eq_true] at scalar
      have kind := OperandKind.ofTypes_of_scalar (Expr.isScalar_ty scalar.2.1)
        (Expr.isScalar_ty scalar.2.2)
      rw [Expr.piece, Expr.eval]
      simp only [Gen.shortCut?, Gen.binaryOp, kind, OperandKind.compareOp]
      apply (performs_expr runs lhs scalar.2.1 us).binary (performs_expr runs rhs scalar.2.2)
      intro v w
      exact performs_plain runs.room _
        fun _ _ _ _ directive fetches => fetches.computes_compare directive v w
  | .unary m op operand, scalar, us => by
      have whole := (Bool.and_eq_true_iff.1 scalar).2
      rw [Expr.piece, Expr.eval]
      apply (performs_expr runs operand whole us).seq fun _ => by simp
      intro v
      exact performs_plain runs.room _
        fun _ _ _ _ directive fetches =>
          fetches.computes_unary (Expr.isScalar_ty whole) directive v
  | .call m (.function t i) args, scalar, us => by
      simp only [Expr.isScalar, Bool.and_eq_true] at scalar
      rw [Expr.piece, Expr.piece, Expr.eval]
      · exact runs.performs_call i scalar.2.1 (performs_exprs runs args scalar.2.2 us)
          fun _ _ _ => length_evals
      · nofun

/-- The code of expressions leaves their values. -/
theorem performs_exprs (runs : s.Runs n a site call) :
  (es : List Expr) → Expr.areScalar s.program (s.slots a) es → ∀ us : List Int64,
    s.Performs n a (Expr.pieces site es) us (Expr.evals call ⟨a.current, site.line⟩ es)
      (fun vs => us ++ vs)
  | [], _, us => performs_empty (List.append_nil us).symm
  | e :: rest, scalar, us => by
      obtain ⟨whole, wholes⟩ := Bool.and_eq_true_iff.1 scalar
      rw [Expr.pieces, Expr.evals]
      apply (performs_expr runs e whole us).seq fun _ => by simp
      intro v
      exact (performs_exprs runs rest wholes (us ++ [v])).map fun vs => by simp

end

/-- An expression for its effect leaves nothing. -/
theorem performs_effect (runs : s.Runs n a site call) {e : Option Expr}
    (scalar : Expr.optionScalar s.program (s.slots a) e) :
  s.Performs n a (optionalEffectPiece site e) us (Expr.effect call ⟨a.current, site.line⟩ e)
    (fun _ => us)
  := by
  cases e with
  | none => exact performs_empty rfl
  | some e =>
    cases e with
    | assign m target value =>
      cases target with
      | var t place =>
        simp only [Expr.optionScalar, Expr.isScalar, Bool.and_eq_true] at scalar
        -- the value is not duplicated, as nothing is left of it
        have stored : s.Performs n a ((value.piece site).seq 1
            (site.one m.position (.store _ t.ty place))) us _ _ :=
          (performs_expr runs value scalar.2.2.2 us).seq (fun _ => by simp)
            fun v => performs_store runs.room t.ty scalar.2.2.1 v
        simp only [optionalEffectPiece, Expr.effectPiece, Expr.storePiece, runs.params,
          Expr.effect, Expr.eval, bind_assoc, pure_bind]
        exact stored
      | _ => cases scalar
    | _ =>
      apply (performs_expr runs _ scalar us).seq fun _ => by simp
      exact performs_pop runs.room

end Setting

end Bytecode
