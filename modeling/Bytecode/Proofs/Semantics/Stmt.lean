import Mathlib
import Bytecode.Proofs.Semantics.Expr

/-!
# Statements are executed as they are evaluated

`Setting.Executes` says that a piece of code follows the evaluation of a statement: the machine
goes on behind the piece, at an end of the loop around it, or where the call was made, as control
leaves the statement. The code of a statement executes it: `Setting.executes_stmt`, by induction
on the statement. For a loop the induction is on the rounds that it may take, and each of them
ends with a step back to the top.
-/

namespace Bytecode

open Machine

/-- The parts of a statement are on its line, as their code is. -/
theorem Locus.at_eq (current : Option Nat) (site : Site) (p : Position) :
  Locus.at_ p ⟨current, site.line⟩ = ⟨current, (site.enter p.line).line⟩
  := by
  unfold Locus.at_ Site.enter
  split
  all_goals rfl

namespace Setting

variable {s : Setting} {a : Activation} {site : Site} {position : Position} {aims : Aim → Nat}
  {inLoop : Bool} {pc stop n rounds : Nat} {store : Store} {m : Machine}
  {call : Nat → List Int64 → Eval Int64} {q r : Piece} {x y : Eval Flow}

/-! ### Ways to leave a statement -/

/-- The machine is where control goes when a statement is left so. -/
def Leaves (s : Setting) (a : Activation) (aims : Aim → Nat) (inLoop : Bool) (stop : Nat) :
    Flow → Store → Machine → Prop
  | .next, store, m => s.Mirrors a stop [] store m
  | .break_, store, m => inLoop ∧ s.Mirrors a (aims .break_) [] store m
  | .continue_, store, m => inLoop ∧ s.Mirrors a (aims .continue_) [] store m
  | .ret v, store, m => s.Returns a v store m

/-- Only the ends of the loop are places to which control leaves a statement. -/
theorem leaves_update {aim : Aim} {place : Nat} (notBreak : aim ≠ .break_)
    (notContinue : aim ≠ .continue_) :
  s.Leaves a (Function.update aims aim place) inLoop stop = s.Leaves a aims inLoop stop
  := by
  funext flow store m
  cases flow with
  | next => rfl
  | break_ => rw [Leaves, Leaves, Function.update_of_ne notBreak.symm]
  | continue_ => rw [Leaves, Leaves, Function.update_of_ne notContinue.symm]
  | ret v => rfl

/-- The machine goes on behind a statement. -/
theorem Follows.next {stop' : Nat} {result : EStateM.Result Halt Store Flow}
    (follows : s.Follows n m (s.Leaves a aims inLoop stop) result)
    (on : ∀ store m, s.Mirrors a stop [] store m →
      s.Follows n m (s.Leaves a aims inLoop stop') (.ok .next store)) :
  s.Follows n m (s.Leaves a aims inLoop stop') result
  := by
  apply follows.extend
  intro flow store m left
  cases flow with
  | next => exact on store m left
  | break_ | continue_ | ret v => exact .done left

/-- Wherever the piece is placed, a machine that comes to it without operands comes to what the
evaluation of a statement comes to. -/
def Executes (s : Setting) (n : Nat) (a : Activation) (inLoop : Bool) (q : Piece) (x : Eval Flow) :
    Prop :=
  ∀ (aims : Aim → Nat) (pc : Nat) (store : Store) (m : Machine),
    s.Placed a aims pc 0 q → s.Mirrors a pc [] store m →
    s.Follows n m (s.Leaves a aims inLoop (pc + q.size)) (x store)

theorem executes_empty :
  s.Executes n a inLoop .empty (pure .next)
  := fun _ _ _ _ _ here => .done here

theorem Executes.seq (first : s.Executes n a inLoop q x) (second : s.Executes n a inLoop r y) :
  s.Executes n a inLoop (q.seq 0 r) (do
    match ← x with
    | .next => y
    | flow => return flow)
  := by
  intro aims pc store m placed here
  apply (first aims pc store m placed.seq.1 here).bind
  intro flow store' m' left
  rw [Piece.size, ← Nat.add_assoc]
  cases flow with
  | next => exact second aims _ store' m' placed.seq.2 left
  | break_ | continue_ | ret v => exact .done left

/-- What is done first leaves no operands. -/
theorem Performs.then_ {α : Type} {z : Eval α} (first : s.Performs n a q [] z (fun _ => []))
    (second : s.Executes n a inLoop r y) :
  s.Executes n a inLoop (q.seq 0 r) (do
    let _ ← z
    y)
  := by
  intro aims pc store m placed here
  apply (first aims pc store m placed.seq.1 here).bind
  intro v store' m' there
  rw [Piece.size, ← Nat.add_assoc]
  exact second aims _ store' m' placed.seq.2 there

theorem Performs.executes {α : Type} {z : Eval α} (performs : s.Performs n a q [] z (fun _ => [])) :
  s.Executes n a inLoop q (do
    let _ ← z
    return .next)
  := by
  intro aims pc store m placed here
  apply (performs aims pc store m placed here).bind
  intro v store' m' there
  exact .done there

/-- A jump to an end of the loop. -/
theorem executes_jump {aim : Aim} {flow : Flow}
    (leaves : ∀ aims stop store m, s.Mirrors a (aims aim) [] store m →
      s.Leaves a aims inLoop stop flow store m) :
  s.Executes n a inLoop (site.jump position .jump aim) (pure flow)
  := by
  intro aims pc store m placed here
  apply Follows.step (here.jumps placed.jump rfl rfl)
  intro m' there
  exact .done (leaves _ _ _ _ there)

theorem executes_return {z : Eval Int64} (performs : s.Performs n a q [] z (fun v => [v])) :
  s.Executes n a inLoop (q.seq 1 (site.one position { op := .ret })) (do return .ret (← z))
  := by
  intro aims pc store m placed here
  apply (performs aims pc store m placed.seq.1 here).bind
  intro v store' m' there
  apply Follows.step (there.returns placed.seq.2.one rfl)
  intro m'' returned
  exact .done returned

theorem executes_default (runs : s.Runs n a site call) :
  s.Executes n a inLoop (returnPiece site position none) (pure (.ret 0))
  := by
  have zero : s.Performs n a (site.one position (.default site.returns)) [] (pure 0)
      fun v => [v] := by
    apply performs_push runs.room 0
    intro point i store m directive fetches
    rw [Directive.default_eq runs.returns] at directive
    exact fetches.computes_bool directive
  exact executes_return zero

/-! ### Conditions -/

/-- A conditional jump is taken if the condition does not hold. -/
theorem follows_condition (runs : s.Runs n a site call) {e : Expr} {aim : Aim}
    (scalar : e.isScalar s.program (s.slots a))
    (placed : s.Placed a aims pc 0 ((e.piece site).seq 1 (site.jump position .jumpIfFalse aim)))
    (here : s.Mirrors a pc [] store m) :
  s.Follows n m
    (fun holds => s.Mirrors a
      (if holds then pc + ((e.piece site).seq 1 (site.jump position .jumpIfFalse aim)).size
      else aims aim) [])
    (Expr.holds call ⟨a.current, site.line⟩ (some e) store)
  := by
  apply (performs_expr runs e scalar [] aims pc store m placed.seq.1 here).bind
  intro v store' m' there
  apply Follows.step (there.jumpsIf placed.seq.2.jump false rfl rfl)
  intro m'' after
  apply Follows.done
  by_cases zero : v = 0
  · simpa [zero] using after
  · rw [if_neg (by simpa using zero)] at after
    rw [if_pos (by simpa using zero)]
    exact after.at_ (Nat.add_assoc ..)

/-- A loop is left if its condition does not hold. -/
theorem follows_loopCondition (runs : s.Runs n a site call) {condition : Option Expr}
    (scalar : Expr.optionScalar s.program (s.slots a) condition)
    (placed : s.Placed a aims pc 0 (loopConditionPiece site condition))
    (here : s.Mirrors a pc [] store m) :
  s.Follows n m
    (fun holds => s.Mirrors a
      (if holds then pc + (loopConditionPiece site condition).size else aims .break_) [])
    (Expr.holds call ⟨a.current, site.line⟩ condition store)
  := by
  cases condition with
  | none => exact .done here
  | some condition => exact follows_condition runs scalar placed here

/-- A block is run if the condition holds, after which control goes to the end of the branch;
otherwise the machine comes to the place behind. -/
theorem Executes.branch (body : s.Executes n a inLoop q x) (runs : s.Runs n a site call)
    {condition : Expr} (scalar : condition.isScalar s.program (s.slots a))
    (placed : s.Placed a aims pc 0 (branchPiece site condition q r))
    (otherwise : ∀ place store m,
      s.Placed a (Function.update aims .next place) place 0 r → s.Mirrors a place [] store m →
      place + r.size = pc + (branchPiece site condition q r).size →
      s.Follows n m (s.Leaves a aims inLoop (aims .done)) (y store))
    (here : s.Mirrors a pc [] store m) :
  s.Follows n m (s.Leaves a aims inLoop (aims .done))
    ((do if ← Expr.holds call ⟨a.current, site.line⟩ (some condition) then x else y) store)
  := by
  obtain ⟨placedFirst, placedOthers⟩ := placed.mark
  obtain ⟨most, placedJump⟩ := placedFirst.seq
  obtain ⟨placedCondition, placedBody⟩ := most.seq
  apply (follows_condition runs scalar placedCondition here).bind
  intro holds store' m' there
  cases holds with
  | true =>
    have left := body _ _ store' m' placedBody there
    rw [leaves_update (by nofun) (by nofun)] at left
    apply left.next
    intro store'' m'' behind
    apply Follows.step
      ((behind.at_ (Nat.add_assoc ..)).jumps placedJump.jump rfl rfl)
    intro m₃ after
    rw [Function.update_of_ne (by nofun)] at after
    exact .done after
  | false =>
    rw [if_neg nofun, Function.update_self] at there
    exact otherwise _ store' m' placedOthers there (Nat.add_assoc ..)

/-- A whole branch: the others end where it ends. -/
theorem Executes.branching (body : s.Executes n a inLoop q x) (runs : s.Runs n a site call)
    {condition : Expr} (scalar : condition.isScalar s.program (s.slots a))
    (others : ∀ aims pc store m, s.Placed a aims pc 0 r → s.Mirrors a pc [] store m →
      aims .done = pc + r.size → s.Follows n m (s.Leaves a aims inLoop (aims .done)) (y store)) :
  s.Executes n a inLoop (.mark .done (branchPiece site condition q r) 0 .empty)
    (do if ← Expr.holds call ⟨a.current, site.line⟩ (some condition) then x else y)
  := by
  intro aims pc store m placed here
  let aims' := Function.update aims .done (pc + (branchPiece site condition q r).size)
  have otherwise (place : Nat) (store : Store) (m : Machine)
      (placedOthers : s.Placed a (Function.update aims' .next place) place 0 r)
      (there : s.Mirrors a place [] store m)
      (ends : place + r.size = pc + (branchPiece site condition q r).size) :
      s.Follows n m (s.Leaves a aims' inLoop (aims' .done)) (y store) := by
    have left := others _ place store m placedOthers there
    rw [leaves_update (by nofun) (by nofun), Function.update_of_ne (by nofun)] at left
    exact left ((Function.update_self ..).trans ends.symm)
  have left := body.branch runs scalar placed.mark.1 otherwise here
  rw [leaves_update (by nofun) (by nofun), Function.update_self] at left
  exact left

/-- A loop comes to what its rounds come to. Every round ends with a step back to the top. -/
theorem follows_iterate {test : Eval Bool} {body : Eval Flow} {post : Eval Unit}
    {aims' : Aim → Nat} {top inside back : Nat}
    (tests : ∀ store m, s.Mirrors a top [] store m →
      s.Follows n m (fun holds => s.Mirrors a (if holds then inside else aims' .break_) [])
        (test store))
    (follows : ∀ store m, s.Mirrors a inside [] store m →
      s.Follows n m (s.Leaves a aims' true (aims' .continue_)) (body store))
    (posts : ∀ store m, s.Mirrors a (aims' .continue_) [] store m →
      s.Follows n m (fun _ => s.Mirrors a back []) (post store))
    (jumps : ∀ store m, s.Mirrors a back [] store m → s.Steps m (s.Mirrors a top [] store))
    (here : s.Mirrors a top [] store m) :
  s.Follows (min rounds n) m (s.Leaves a aims inLoop (aims' .break_))
    (Eval.iterate test body post rounds store)
  := by
  induction rounds generalizing store m with
  | zero =>
    rw [Nat.zero_min]
    exact .timeout store
  | succ rounds ih =>
    -- the step back makes up for the round that is gone
    have again (store : Store) (m : Machine) (behind : s.Mirrors a (aims' .continue_) [] store m) :
        s.Follows (min (rounds + 1) n) m (s.Leaves a aims inLoop (aims' .break_))
          ((do post; Eval.iterate test body post rounds) store) := by
      apply ((posts store m behind).mono (Nat.min_le_right _ _) fun _ _ _ => id).bind
      intro _ store' m' ready
      apply (Follows.counted (jumps store' m' ready) fun _ there => ih there).mono
      · omega
      · exact fun _ _ _ => id
    rw [Eval.iterate]
    apply ((tests store m here).mono (Nat.min_le_right _ _) fun _ _ _ => id).bind
    intro holds store' m' there
    cases holds with
    | false => exact .done there
    | true =>
      apply ((follows store' m' there).mono (Nat.min_le_right _ _) fun _ _ _ => id).bind
      intro flow store'' m'' left
      cases flow with
      | next => exact again store'' m'' left
      | continue_ => exact again store'' m'' left.2
      | break_ => exact .done left.2
      | ret v => exact .done left

/-! ### Statements -/

theorem Runs.enter (runs : s.Runs n a site call) (line : UInt32) :
  s.Runs n a (site.enter line) call
  := by
  unfold Site.enter
  split
  · exact runs
  · exact ⟨runs.params, runs.returns, runs.room, runs.calls⟩

/-- The parts of a loop, and the places to which they jump. -/
theorem Placed.loop {condition post : Option Expr}
    (placed : s.Placed a aims pc 0 (loopPiece site position condition q post)) :
  ∃ aims' : Aim → Nat, aims' .top = pc
    ∧ aims' .break_ = pc + (loopPiece site position condition q post).size
    ∧ aims' .continue_ = pc + (loopConditionPiece site condition).size + q.size
    ∧ s.Placed a aims' pc 0 (loopConditionPiece site condition)
    ∧ s.Placed a aims' (pc + (loopConditionPiece site condition).size) 0 q
    ∧ s.Placed a aims' (aims' .continue_) 0 (optionalEffectPiece site post)
    ∧ s.Placed a aims' (aims' .continue_ + (optionalEffectPiece site post).size) 0
      (site.jump position .jump .top)
  := by
  obtain ⟨placedRound, -⟩ := placed.mark.2.mark
  obtain ⟨first, second⟩ := placedRound.mark
  obtain ⟨placedCondition, placedBody⟩ := first.seq
  obtain ⟨placedPost, placedBack⟩ := second.seq
  refine ⟨_, ?_, ?_, ?_, placedCondition, placedBody, placedPost, placedBack⟩
  · rfl
  · simp [Function.update, loopPiece, Piece.size]
  · simp [Function.update, Piece.size, Nat.add_assoc]

/-- A loop without its initial expression. -/
theorem executes_loop (runs : s.Runs n a site call) (enough : n ≤ rounds)
    {condition post : Option Expr} {body : Eval Flow}
    (whole : Expr.optionScalar s.program (s.slots a) condition)
    (whole' : Expr.optionScalar s.program (s.slots a) post) (executes : s.Executes n a true q body) :
  s.Executes n a inLoop (loopPiece site position condition q post)
    (Eval.iterate (Expr.holds call ⟨a.current, site.line⟩ condition) body
      (Expr.effect call ⟨a.current, site.line⟩ post) rounds)
  := by
  intro aims pc store m placed here
  obtain ⟨aims', top, breaks, continues, placedCondition, placedBody, placedPost, placedBack⟩ :=
    placed.loop
  rw [← Nat.min_eq_right enough, ← breaks]
  have bodies (store : Store) (m : Machine)
      (there : s.Mirrors a (pc + (loopConditionPiece site condition).size) [] store m) :
      s.Follows n m (s.Leaves a aims' true (aims' .continue_)) (body store) := by
    rw [continues]
    exact executes aims' _ store m placedBody there
  have jumps (store : Store) (m : Machine) (there : s.Mirrors a
      (aims' .continue_ + (optionalEffectPiece site post).size) [] store m) :
      s.Steps m (s.Mirrors a pc [] store) := by
    have jumped := there.jumps placedBack.jump rfl rfl
    rw [top] at jumped
    exact jumped
  exact follows_iterate
    (fun _ _ there => follows_loopCondition runs whole placedCondition there) bodies
    (fun store m there => performs_effect runs whole' aims' _ store m placedPost there) jumps here

mutual

/-- The code of a statement executes it. -/
theorem executes_stmt {site : Site} (runs : s.Runs n a site call) (enough : n ≤ rounds)
    {inLoop : Bool} :
  (t : Stmt) → t.isScalar s.program (s.slots a) → t.JumpsInLoops inLoop →
    s.Executes n a inLoop (t.piece site inLoop) (t.exec call rounds ⟨a.current, site.line⟩)
  | .expression p e, scalar, _ => by
      rw [Stmt.exec, Locus.at_eq]
      have performs : s.Performs n a (optionalEffectPiece (site.enter p.line) (some e)) [] _ _ :=
        performs_effect (runs.enter p.line) scalar
      exact performs.executes
  | .declaration _ _ _ none, _, _ => executes_empty
  | .declaration p place ty (some initial), scalar, _ => by
      simp only [Stmt.isScalar, Expr.optionScalar, Bool.and_eq_true] at scalar
      have runs := runs.enter p.line
      have performs : s.Performs n a ((initial.piece (site.enter p.line)).seq 1
          ((site.enter p.line).one p (.store _ ty place))) [] _ _ :=
        (performs_expr runs initial scalar.2.2 []).seq (fun _ => rfl)
          fun v => performs_store runs.room ty scalar.2.1 v
      rw [Stmt.exec, Locus.at_eq, Stmt.piece, runs.params, ← bind_assoc]
      exact performs.executes
  | .branch p condition thenBlock elifs elseBlock, scalar, inLoops => by
      simp only [Stmt.isScalar, Bool.and_eq_true] at scalar
      obtain ⟨inThen, inElifs, inElse⟩ := inLoops
      have runs := runs.enter p.line
      rw [Stmt.exec, Locus.at_eq, Stmt.piece]
      apply (executes_stmts runs enough thenBlock scalar.2.1 inThen).branching runs scalar.1
      intro aims pc store m placed here ends
      apply follows_elifs runs enough _ elifs scalar.2.2.1 inElifs placed.seq.1 here
      intro store' m' arrived
      have left := executes_else runs enough elseBlock scalar.2.2.2 inElse aims _ store' m'
        placed.seq.2 arrived
      rw [Nat.add_assoc] at left
      rw [ends]
      exact left
  | .loop p init condition post body, scalar, inLoops => by
      simp only [Stmt.isScalar, Bool.and_eq_true] at scalar
      have runs := runs.enter p.line
      rw [Stmt.exec, Locus.at_eq, Stmt.piece]
      apply (performs_effect runs scalar.1).then_
      apply executes_loop runs enough scalar.2.1 scalar.2.2.1
      exact executes_stmts runs enough body scalar.2.2.2 inLoops
  | .ret p none, _, _ => executes_default (runs.enter p.line)
  | .ret p (some value), scalar, _ => by
      rw [Stmt.exec, Locus.at_eq, Stmt.piece]
      exact executes_return (performs_expr (runs.enter p.line) value scalar [])
  | .break_ p, _, inLoops | .continue_ p, _, inLoops => by
      have inside : inLoop = true := inLoops
      rw [Stmt.exec, Stmt.piece, if_pos inside]
      exact executes_jump fun _ _ _ _ there => ⟨inside, there⟩
  | .block p statements, scalar, inLoops => by
      rw [Stmt.exec, Locus.at_eq, Stmt.piece]
      exact executes_stmts (runs.enter p.line) enough statements scalar inLoops

theorem executes_stmts {site : Site} (runs : s.Runs n a site call) (enough : n ≤ rounds)
    {inLoop : Bool} :
  (ts : List Stmt) → Stmt.areScalar s.program (s.slots a) ts → Stmt.AllInLoops inLoop ts →
    s.Executes n a inLoop (Stmt.pieces site inLoop ts)
      (Stmt.execs call rounds ⟨a.current, site.line⟩ ts)
  | [], _, _ => executes_empty
  | t :: rest, scalar, inLoops => by
      obtain ⟨whole, wholes⟩ := Bool.and_eq_true_iff.1 scalar
      rw [Stmt.execs]
      exact (executes_stmt runs enough t whole inLoops.1).seq
        (executes_stmts runs enough rest wholes inLoops.2)

/-- The code of further branches leads to the end of the whole, or to what is left. -/
theorem follows_elifs {site : Site} (runs : s.Runs n a site call) (enough : n ≤ rounds)
    {inLoop : Bool} (otherwise : Eval Flow) :
  (elifs : List Elif) → Elif.areScalar s.program (s.slots a) elifs →
    Elif.AllInLoops inLoop elifs → ∀ {aims : Aim → Nat} {pc : Nat} {store : Store} {m : Machine},
    s.Placed a aims pc 0 (Elif.pieces site inLoop elifs) → s.Mirrors a pc [] store m →
    (∀ store m, s.Mirrors a (pc + (Elif.pieces site inLoop elifs).size) [] store m →
      s.Follows n m (s.Leaves a aims inLoop (aims .done)) (otherwise store)) →
    s.Follows n m (s.Leaves a aims inLoop (aims .done))
      (Elif.execs call rounds ⟨a.current, site.line⟩ otherwise elifs store)
  | [], _, _, _, _, _, _, _, here, left => left _ _ here
  | .mk condition body :: rest, scalar, inLoops, aims, pc, store, m, placed, here, left => by
      simp only [Elif.areScalar, Bool.and_eq_true] at scalar
      rw [Elif.execs]
      apply (executes_stmts runs enough body scalar.2.1 inLoops.1).branch runs scalar.1 placed _ here
      intro place store' m' placedRest there ends
      have others := follows_elifs runs enough otherwise rest scalar.2.2 inLoops.2 placedRest there
      rw [leaves_update (by nofun) (by nofun), Function.update_of_ne (by nofun)] at others
      exact others fun store m arrived => left store m (arrived.at_ ends)

theorem executes_else {site : Site} (runs : s.Runs n a site call) (enough : n ≤ rounds)
    {inLoop : Bool} :
  (body : Option (List Stmt)) → Stmt.elseScalar s.program (s.slots a) body →
    Stmt.ElseInLoops inLoop body →
    s.Executes n a inLoop (Stmt.elsePiece site inLoop body)
      (Stmt.execElse call rounds ⟨a.current, site.line⟩ body)
  | none, _, _ => executes_empty
  | some body, scalar, inLoops => by
      rw [Stmt.execElse]
      exact executes_stmts runs enough body scalar inLoops

end

end Setting

end Bytecode
