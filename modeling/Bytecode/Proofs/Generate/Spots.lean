import Mathlib
import Bytecode.Proofs.Generate.Program

/-!
# Where the code of a construct is

`Program.spots` lists every expression whose value is computed and every statement of a body, with
the place where its code starts. An assignment that is a statement computes no value, and neither
do the target of an assignment and the method of a call; what they are made of does.

A body consists of the code of its constructs, `Laid`, `Program.laid_spots`. So all code is where it
is listed, `Program.located_of_mem_spots`, and every call instruction is the end of the code of a
call, `Program.exists_call`, and of only one, `Program.eq_of_call`.
-/

namespace Bytecode

/-- An expression or a statement of a body. A statement inside a loop comes with the places where
`break` and `continue` go. -/
inductive Construct where
  | expr (e : Expr)
  | stmt (loop : Option (Nat × Nat)) (s : Stmt)

/-- A construct and the place where its code starts. -/
structure Spot where
  construct : Construct
  site : Site
  start : Nat

namespace Spot

/-- The code of the construct. -/
def piece (spot : Spot) : Piece :=
  match spot.construct with
  | .expr e => e.piece spot.site
  | .stmt loop s => s.piece spot.site loop.isSome

/-- The place after the code. -/
def stop (spot : Spot) : Nat := spot.start + spot.piece.size

/-- The number of arguments, if the construct is a call. The object of a method is one of
them. -/
def callArgs? (spot : Spot) : Option Nat :=
  match spot.construct with
  | .expr (.call _ (.method _ _ _) args) => some (args.length + 1)
  | .expr (.call _ _ args) => some args.length
  | _ => none

end Spot

mutual

/-- An expression and those inside it. -/
def Expr.spots (site : Site) (start : Nat) (e : Expr) : List Spot :=
  ⟨.expr e, site, start⟩ :: match e with
    | .assign _ target value =>
      value.spots site start
        ++ target.targetSpots site (start + ((value.piece site).size + Op.duplicate.size))
    | .binary _ op lhs rhs =>
      lhs.spots site start ++ rhs.spots site (start + (lhs.piece site).size
        + ((Gen.shortCut? op).map fun skip =>
          Op.duplicate.size + skip.size + Op.pop.size).getD 0)
    | .call _ callee args =>
      Expr.listSpots site start args ++ match callee with
        | .method _ object _ => object.spots site (start + (Expr.pieces site args).size)
        | callee => callee.spots site (start + (Expr.pieces site args).size)
    | .index _ array i => array.spots site start ++ i.spots site (start + (array.piece site).size)
    | .unary _ _ e | .field _ e _ | .newArray _ e | .convert _ _ e | .downCast _ _ e
    | .instanceOf _ _ e | .arrayLength _ e | .stringLength _ e => e.spots site start
    | .arrayLiteral _ items => Expr.listSpots site start items
    | _ => []

def Expr.listSpots (site : Site) (start : Nat) : List Expr → List Spot
  | [] => []
  | e :: rest => e.spots site start ++ Expr.listSpots site (start + (e.piece site).size) rest

/-- The expressions inside the target of an assignment. -/
def Expr.targetSpots (site : Site) (start : Nat) : Expr → List Spot
  | .index _ array i => array.spots site start ++ i.spots site (start + (array.piece site).size)
  | .field _ object _ => object.spots site start
  | _ => []

end

/-- The expressions of an expression that is computed for its effect. -/
def Expr.effectSpots (site : Site) (start : Nat) : Expr → List Spot
  | .assign _ target value =>
    value.spots site start ++ target.targetSpots site (start + (value.piece site).size)
  | e => e.spots site start

def optionalEffectSpots (site : Site) (start : Nat) : Option Expr → List Spot
  | none => []
  | some e => e.effectSpots site start

def optionalSpots (site : Site) (start : Nat) : Option Expr → List Spot
  | none => []
  | some e => e.spots site start

/-- Where the block of a branch starts. -/
def branchBody (site : Site) (start : Nat) (condition : Expr) : Nat :=
  start + ((condition.piece site).size + Op.jumpIfFalse.size)

mutual

/-- A statement, those inside it and their expressions. -/
def Stmt.spots (site : Site) (loop : Option (Nat × Nat)) (start : Nat) (s : Stmt) : List Spot :=
  ⟨.stmt loop s, site, start⟩ :: match s with
    | .expression p e => e.effectSpots (site.enter p.line) start
    | .declaration p _ _ initial => optionalSpots (site.enter p.line) start initial
    | .branch p condition thenBlock elifs elseBlock =>
      let site := site.enter p.line
      let body := branchBody site start condition
      let others := body + (Stmt.pieces site loop.isSome thenBlock).size + Op.jump.size
      condition.spots site start ++ Stmt.listSpots site loop body thenBlock
        ++ (Elif.spots site loop others elifs
          ++ Stmt.elseSpots site loop (others + (Elif.pieces site loop.isSome elifs).size) elseBlock)
    | .loop p init condition post body =>
      let site := site.enter p.line
      let top := start + (optionalEffectPiece site init).size
      let first := top + (loopConditionPiece site condition).size
      let next := first + (Stmt.pieces site true body).size
      let done := next + (optionalEffectPiece site post).size + Op.jump.size
      optionalEffectSpots site start init ++ (optionalSpots site top condition
        ++ Stmt.listSpots site (some (done, next)) first body
        ++ optionalEffectSpots site next post)
    | .ret p value => optionalSpots (site.enter p.line) start value
    | .break_ _ | .continue_ _ => []
    | .block p statements => Stmt.listSpots (site.enter p.line) loop start statements

def Stmt.listSpots (site : Site) (loop : Option (Nat × Nat)) (start : Nat) :
    List Stmt → List Spot
  | [] => []
  | s :: rest =>
    s.spots site loop start
      ++ Stmt.listSpots site loop (start + (s.piece site loop.isSome).size) rest

def Elif.spots (site : Site) (loop : Option (Nat × Nat)) (start : Nat) : List Elif → List Spot
  | [] => []
  | .mk condition body :: rest =>
    condition.spots site start ++ Stmt.listSpots site loop (branchBody site start condition) body
      ++ Elif.spots site loop (branchBody site start condition
        + (Stmt.pieces site loop.isSome body).size + Op.jump.size) rest

def Stmt.elseSpots (site : Site) (loop : Option (Nat × Nat)) (start : Nat) :
    Option (List Stmt) → List Spot
  | none => []
  | some body => Stmt.listSpots site loop start body

end

/-- The constructs of a function of the table, or of the top level. -/
def Program.spots (p : Program) : Option Nat → List Spot
  | none => Stmt.listSpots ⟨0, .void, 0⟩ none 0 p.statements
  | some index =>
    match p.functions[index]? with
    | some f => (f.body.map (Stmt.listSpots f.site none 0)).getD []
    | none => []

/-! ### Code is where it is listed -/

namespace Piece

/-- Apart from the numbers of operands, the instructions of a piece do not depend on the number that
it starts with. -/
theorem exists_depth_mem_points {q : Piece} {aims : Aim → Nat} {pc depth : Nat} {point : Point}
    (listed : point ∈ q.points aims pc depth) (depth' : Nat) :
  ∃ d, { point with depth := d } ∈ q.points aims pc depth'
  := by
  induction q generalizing aims pc depth depth' with
  | empty => simp [points] at listed
  | one line directive | jump line op aim =>
    obtain rfl := List.mem_singleton.1 listed
    exact ⟨depth', List.mem_singleton_self _⟩
  | seq first rise second ihFirst ihSecond | mark aim first rise second ihFirst ihSecond =>
    rcases List.mem_append.1 listed with left | right
    · obtain ⟨d, listed'⟩ := ihFirst left depth'
      exact ⟨d, List.mem_append_left _ listed'⟩
    · obtain ⟨d, listed'⟩ := ihSecond right (depth' + rise)
      exact ⟨d, List.mem_append_right _ listed'⟩

/-- The instructions of a piece that starts at a place are among others. -/
def Within (whole : List Point) (aims : Aim → Nat) (start : Nat) (q : Piece) : Prop :=
  ∀ point ∈ q.points aims start 0, ∃ depth, { point with depth } ∈ whole

variable {whole : List Point} {aims : Aim → Nat} {start rise : Nat} {q r : Piece}

theorem Within.left (within : Within whole aims start (q.seq rise r)) :
  Within whole aims start q
  := fun point listed => within point (List.mem_append_left _ listed)

theorem Within.right (within : Within whole aims start (q.seq rise r)) :
  Within whole aims (start + q.size) r
  := by
  intro point listed
  obtain ⟨d, listed'⟩ := exists_depth_mem_points listed (0 + rise)
  apply within { point with depth := d }
  exact List.mem_append_right _ listed'

theorem Within.unmark {aim : Aim} (within : Within whole aims start (.mark aim q rise r)) :
  Within whole (Function.update aims aim (start + q.size)) start (q.seq rise r)
  := within

/-- Two instructions of a piece are at different places. -/
theorem eq_of_mem_points {q : Piece} {aims : Aim → Nat} {pc depth : Nat} {point point' : Point}
    (listed : point ∈ q.points aims pc depth) (listed' : point' ∈ q.points aims pc depth)
    (same : point.pc = point'.pc) :
  point = point'
  := by
  -- Instructions of the first part of a sequence end before those of the second part start.
  have apart {first second : Piece} {aims : Aim → Nat} {pc depth depth' : Nat}
      {point point' : Point} (left : point ∈ first.points aims pc depth)
      (right : point' ∈ second.points aims (pc + first.size) depth') : point.pc ≠ point'.pc := by
    have bounds := bounds_of_mem_points left
    have bounds' := bounds_of_mem_points right
    have positive := point.op.size_pos
    unfold Point.next at bounds
    omega
  induction q generalizing aims pc depth with
  | empty => simp [points] at listed
  | one line directive | jump line op aim =>
    rw [List.mem_singleton.1 listed, List.mem_singleton.1 listed']
  | seq first rise second ihFirst ihSecond | mark aim first rise second ihFirst ihSecond =>
    rcases List.mem_append.1 listed with left | right
    · rcases List.mem_append.1 listed' with left' | right'
      · apply ihFirst left left'
      · exact absurd same (apart left right')
    · rcases List.mem_append.1 listed' with left' | right'
      · exact absurd same.symm (apart left' right)
      · apply ihSecond right right'

end Piece

open Piece

/-- The places where `break` and `continue` go are those of the loop, which lie behind the code up
to a place. -/
def LoopPlaces (aims : Aim → Nat) (loop : Option (Nat × Nat)) (stop : Nat) : Prop :=
  ∀ done next, loop = some (done, next) →
    aims .break_ = done ∧ aims .continue_ = next ∧ stop ≤ next ∧ next ≤ done

theorem LoopPlaces.mono {aims : Aim → Nat} {loop : Option (Nat × Nat)} {stop stop' : Nat}
    (places : LoopPlaces aims loop stop) (le : stop' ≤ stop) :
  LoopPlaces aims loop stop'
  := by
  intro done next inside
  obtain ⟨breaks, continues, before, order⟩ := places done next inside
  exact ⟨breaks, continues, Nat.le_trans le before, order⟩

theorem LoopPlaces.update {aims : Aim → Nat} {loop : Option (Nat × Nat)} {stop : Nat}
    (places : LoopPlaces aims loop stop) (aim : Aim) (noBreak : aim ≠ .break_)
    (noContinue : aim ≠ .continue_) (place : Nat) :
  LoopPlaces (Function.update aims aim place) loop stop
  := by
  intro done next inside
  rw [Function.update_of_ne noBreak.symm, Function.update_of_ne noContinue.symm]
  apply places done next inside

/-- The code of the construct starts at its place. -/
def Spot.Located (whole : List Point) (spot : Spot) : Prop :=
  ∃ aims, spot.piece.Within whole aims spot.start ∧
    match spot.construct with
    | .expr _ => True
    | .stmt loop _ => LoopPlaces aims loop spot.stop

/-- The constructs whose code a piece consists of, up to instructions in between that call nothing,
when the piece starts at a place and its jumps go to others. -/
inductive Laid : (Aim → Nat) → List Spot → Nat → Piece → Prop
  | empty {aims : Aim → Nat} {start : Nat} : Laid aims [] start .empty
  | one {aims : Aim → Nat} {start : Nat} {line : UInt32} {i : Directive} :
      i.op ≠ .invoke → Laid aims [] start (.one line i)
  | jump {aims : Aim → Nat} {start : Nat} {line : UInt32} {op : Op} {aim : Aim} :
      op.isJump → Laid aims [] start (.jump line op aim)
  | seq {aims : Aim → Nat} {spots spots' : List Spot} {start rise : Nat} {q r : Piece} :
      Laid aims spots start q → Laid aims spots' (start + q.size) r →
      Laid aims (spots ++ spots') start (q.seq rise r)
  | mark {aims : Aim → Nat} {spots : List Spot} {start rise : Nat} {aim : Aim} {q r : Piece} :
      Laid (Function.update aims aim (start + q.size)) spots start (q.seq rise r) →
      Laid aims spots start (.mark aim q rise r)
  | inside {aims : Aim → Nat} {spots : List Spot} {start : Nat} {q : Piece} {spot : Spot} :
      spot.start = start → spot.piece = q → spot.callArgs? = none →
      (∀ loop s, spot.construct = .stmt loop s → LoopPlaces aims loop spot.stop) →
      Laid aims spots start q → Laid aims (spot :: spots) start q
  | call {aims : Aim → Nat} {spots : List Spot} {start rise args : Nat} {line : UInt32} {q : Piece}
      {spot : Spot} :
      spot.start = start → spot.piece = q.seq rise (.one line (.invoke args)) →
      spot.callArgs? = some args → Laid aims spots start q →
      Laid aims (spot :: spots) start (q.seq rise (.one line (.invoke args)))

namespace Laid

variable {aims : Aim → Nat} {spots : List Spot} {start rise : Nat} {q r : Piece} {site : Site}

/-- Instructions behind a piece that are not the code of a construct. -/
theorem followed (first : Laid aims spots start q) (second : Laid aims [] (start + q.size) r) :
  Laid aims spots start (q.seq rise r)
  := by
  have both : Laid aims (spots ++ []) start (q.seq rise r) := first.seq second
  rwa [List.append_nil] at both

theorem expr {e : Expr} (laid : Laid aims spots start (e.piece site))
    (noCall : Spot.callArgs? ⟨.expr e, site, start⟩ = none) :
  Laid aims (⟨.expr e, site, start⟩ :: spots) start (e.piece site)
  := laid.inside rfl rfl noCall nofun

theorem stmt {loop : Option (Nat × Nat)} {s : Stmt}
    (laid : Laid aims spots start (s.piece site loop.isSome))
    (places : LoopPlaces aims loop (start + (s.piece site loop.isSome).size)) :
  Laid aims (⟨.stmt loop s, site, start⟩ :: spots) start (s.piece site loop.isSome)
  := by
  refine laid.inside rfl rfl rfl ?_
  rintro _ _ same
  cases same
  exact places

/-- The code of the constructs is where they are laid. -/
theorem located {whole : List Point} (laid : Laid aims spots start q)
    (within : Within whole aims start q) :
  ∀ spot ∈ spots, spot.Located whole
  := by
  induction laid with
  | empty | one _ | jump _ => exact List.forall_mem_nil _
  | seq _ _ ihFirst ihSecond =>
    exact List.forall_mem_append.2 ⟨ihFirst within.left, ihSecond within.right⟩
  | mark _ ih => exact ih within.unmark
  | @inside aims _ _ _ spot starts piece _ places _ ih =>
    subst starts piece
    refine List.forall_mem_cons.2 ⟨⟨aims, within, ?_⟩, ih within⟩
    split
    · trivial
    · next loop s construct => exact places loop s construct
  | @call aims _ _ _ _ _ _ spot starts piece isCall _ ih =>
    subst starts
    refine List.forall_mem_cons.2 ⟨⟨aims, piece ▸ within, ?_⟩, ih within.left⟩
    split
    · trivial
    · next construct => simp [Spot.callArgs?, construct] at isCall

end Laid

/-! ### Calls -/

/-- Every call instruction of a piece is the last one of the code of a call that is listed. The code
of every call that is listed ends inside the piece, and that of different calls at different
places. -/
structure Piece.CallsIn (spots : List Spot) (start : Nat) (q : Piece) : Prop where
  exists_call : ∀ aims depth, ∀ point ∈ q.points aims start depth, point.op = .invoke →
    ∃ spot ∈ spots, spot.callArgs? = some point.args ∧ spot.stop = point.next
  bounds : ∀ spot ∈ spots, spot.callArgs?.isSome → start < spot.stop ∧ spot.stop ≤ start + q.size
  unique : ∀ spot ∈ spots, ∀ spot' ∈ spots, spot.callArgs?.isSome → spot'.callArgs?.isSome →
    spot.stop = spot'.stop → spot = spot'

namespace Piece.CallsIn

variable {spots spots' : List Spot} {start rise : Nat} {q r : Piece} {line : UInt32}

/-- A piece without calls. -/
theorem of_no_call (none : ∀ aims depth, ∀ point ∈ q.points aims start depth, point.op ≠ .invoke) :
  CallsIn [] start q
  where
  exists_call aims depth point listed invokes := absurd invokes (none aims depth point listed)
  bounds _ listed := by cases listed
  unique _ listed := by cases listed

/-- A construct that is no call has the calls of what is inside it. -/
theorem inside {spot : Spot} (calls : CallsIn spots start q) (noCall : spot.callArgs? = none) :
  CallsIn (spot :: spots) start q
  where
  exists_call aims depth point listed invokes := by
    obtain ⟨spot', isIn, isCall⟩ := calls.exists_call aims depth point listed invokes
    exact ⟨spot', List.mem_cons_of_mem _ isIn, isCall⟩
  bounds := by
    rintro _ (_ | ⟨_, isIn⟩) isCall
    · rw [noCall] at isCall
      cases isCall
    · exact calls.bounds _ isIn isCall
  unique := by
    rintro _ (_ | ⟨_, isIn⟩) _ (_ | ⟨_, isIn'⟩) isCall isCall' same
    · rfl
    · rw [noCall] at isCall
      cases isCall
    · rw [noCall] at isCall'
      cases isCall'
    · exact calls.unique _ isIn _ isIn' isCall isCall' same

theorem seq (first : CallsIn spots start q) (second : CallsIn spots' (start + q.size) r) :
  CallsIn (spots ++ spots') start (q.seq rise r)
  where
  exists_call aims depth point listed invokes := by
    rcases List.mem_append.1 listed with left | right
    · obtain ⟨spot, isIn, isCall⟩ := first.exists_call aims depth point left invokes
      exact ⟨spot, List.mem_append_left _ isIn, isCall⟩
    · obtain ⟨spot, isIn, isCall⟩ :=
        second.exists_call aims (depth + rise) point right invokes
      exact ⟨spot, List.mem_append_right _ isIn, isCall⟩
  bounds spot isIn isCall := by
    have size : (q.seq rise r).size = q.size + r.size := rfl
    rcases List.mem_append.1 isIn with left | right
    · have inside := first.bounds spot left isCall
      omega
    · have inside := second.bounds spot right isCall
      omega
  unique spot isIn spot' isIn' isCall isCall' same := by
    rcases List.mem_append.1 isIn with left | right
    · have inside := first.bounds spot left isCall
      rcases List.mem_append.1 isIn' with left' | right'
      · exact first.unique spot left spot' left' isCall isCall' same
      · have inside' := second.bounds spot' right' isCall'
        omega
    · have inside := second.bounds spot right isCall
      rcases List.mem_append.1 isIn' with left' | right'
      · have inside' := first.bounds spot' left' isCall'
        omega
      · exact second.unique spot right spot' right' isCall isCall' same

/-- The call of which the code ends with the instruction. -/
theorem invoke {spot : Spot} {args : Nat} (calls : CallsIn spots start q)
    (isCall : spot.callArgs? = some args) (starts : spot.start = start)
    (piece : spot.piece = q.seq rise (.one line (.invoke args))) :
  CallsIn (spot :: spots) start (q.seq rise (.one line (.invoke args)))
  := by
  have stops : spot.stop = start + q.size + 1 := by
    rw [Spot.stop, starts, piece, Nat.add_assoc]
    rfl
  refine ⟨?_, ?_, ?_⟩
  · intro aims depth point listed invokes
    rcases List.mem_append.1 listed with left | right
    · obtain ⟨spot', isIn, found⟩ := calls.exists_call aims depth point left invokes
      exact ⟨spot', List.mem_cons_of_mem _ isIn, found⟩
    · obtain rfl := List.mem_singleton.1 right
      exact ⟨spot, List.mem_cons_self, isCall, stops⟩
  · have size : (q.seq rise (.one line (.invoke args))).size = q.size + 1 := rfl
    rintro spot' (_ | ⟨_, isIn⟩) isCall'
    · omega
    · have inside := calls.bounds spot' isIn isCall'
      omega
  · rintro spot₁ (_ | ⟨_, isIn⟩) spot₂ (_ | ⟨_, isIn'⟩) isCall₁ isCall₂ same
    · rfl
    · have inside := calls.bounds spot₂ isIn' isCall₂
      omega
    · have inside := calls.bounds spot₁ isIn isCall₁
      omega
    · exact calls.unique spot₁ isIn spot₂ isIn' isCall₁ isCall₂ same

end Piece.CallsIn

theorem Laid.callsIn {aims : Aim → Nat} {spots : List Spot} {start : Nat} {q : Piece}
    (laid : Laid aims spots start q) :
  CallsIn spots start q
  := by
  induction laid with
  | empty => exact .of_no_call fun _ _ _ listed => by cases listed
  | one differs =>
    apply CallsIn.of_no_call
    intro aims depth point listed
    obtain rfl := List.mem_singleton.1 listed
    exact differs
  | jump jumps =>
    apply CallsIn.of_no_call
    intro aims depth point listed invokes
    obtain rfl := List.mem_singleton.1 listed
    cases invokes
    cases jumps
  | seq _ _ first second => exact first.seq second
  | mark _ calls => exact ⟨fun aims => calls.exists_call _, calls.bounds, calls.unique⟩
  | inside _ _ noCall _ _ calls => exact calls.inside noCall
  | call starts piece isCall _ calls => exact calls.invoke isCall starts piece

/-! ### Constructs of a program -/

theorem Directive.Plain.ne_invoke {i : Directive} {takes leaves : Nat} (plain : i.Plain takes leaves)
    (differs : takes = 0 ∨ leaves = 0) :
  i.op ≠ .invoke
  := by
  intro invokes
  have taken := plain.takes_eq
  have left := plain.leaves_eq
  simp only [Directive.takes, Directive.leaves, invokes, Op.takes, Op.leaves] at taken left
  omega

theorem Gen.binaryOp_ne_invoke (op : BinaryOp) (lhs rhs : Ty) :
  Gen.binaryOp op lhs rhs ≠ .invoke
  := Gen.binaryOp_cases op lhs rhs (· ≠ .invoke) (fun _ => ⟨nofun, nofun⟩)
    (fun _ => ⟨nofun, nofun, nofun⟩) ⟨nofun, nofun, nofun⟩ (fun _ => nofun)

theorem Gen.unaryOp_ne_invoke (op : UnaryOp) (operand : Ty) :
  Gen.unaryOp op operand ≠ .invoke
  := by
  cases op with
  | minus =>
    dsimp only [Gen.unaryOp]
    split
    all_goals nofun
  | not => nofun

section

variable {site : Site}

variable {aims : Aim → Nat}

mutual

theorem Expr.laid_spots :
  (e : Expr) → ∀ {aims : Aim → Nat} (start : Nat), Laid aims (e.spots site start) start (e.piece site)
  | .boolean _ _, _, _ | .string _ _, _, _ | .null _, _, _ | .function _ _, _, _
  | .method _ _ _, _, _ | .new _ _, _, _ => (Laid.one (by nofun)).expr rfl
  | .int _ value, _, _ => (Laid.one ((Directive.plain_int value).ne_invoke (.inl rfl))).expr rfl
  | .double _ value, _, _ =>
      (Laid.one ((Directive.plain_double value).ne_invoke (.inl rfl))).expr rfl
  | .var _ place, _, _ =>
      (Laid.one ((Directive.plain_load _ _ place).ne_invoke (.inl rfl))).expr rfl
  | .unary _ op e, _, start =>
      ((e.laid_spots start).followed (.one (Gen.unaryOp_ne_invoke op e.ty))).expr rfl
  | .field _ e _, _, start | .newArray _ e, _, start | .convert _ _ e, _, start
  | .downCast _ _ e, _, start | .instanceOf _ _ e, _, start | .arrayLength _ e, _, start
  | .stringLength _ e, _, start => ((e.laid_spots start).followed (.one (by nofun))).expr rfl
  | .arrayLiteral _ items, _, start =>
      ((Expr.laid_listSpots items start).followed (.one (by nofun))).expr rfl
  | .index _ array i, _, start =>
      (((array.laid_spots start).seq (i.laid_spots _)).followed (.one (by nofun))).expr rfl
  | .assign m target value, _, start => by
      refine Laid.expr ?_ rfl
      apply Laid.seq
      · apply (value.laid_spots start).followed (.one (by nofun))
      · apply target.laid_targetSpots m.position
  | .binary m op lhs rhs, _, start => by
      rw [Expr.spots]
      refine Laid.expr ?_ rfl
      rw [Expr.piece]
      cases short : Gen.shortCut? op with
      | none =>
        apply Laid.followed _ (.one (Gen.binaryOp_ne_invoke op _ _))
        apply (lhs.laid_spots start).seq (rhs.laid_spots _)
      | some skip =>
        have jumps : skip.isJump := by
          rcases Gen.shortCut?_eq_some short with rfl | rfl
          all_goals rfl
        apply Laid.mark
        apply Laid.followed _ .empty
        apply Laid.seq
        · apply Laid.followed _ (.one (by nofun))
          apply Laid.followed _ (.jump jumps)
          apply (lhs.laid_spots start).followed (.one (by nofun))
        · simp only [Option.map_some, Option.getD_some, Piece.size, Site.one, Site.jump,
            ← Nat.add_assoc]
          apply rhs.laid_spots
  | .call m callee args, aims, start => by
      have called : ∀ start, Laid aims (callee.spots site start) start (callee.piece site) :=
        fun start => callee.laid_spots start
      have passed : Laid aims _ start _ := Expr.laid_listSpots args start
      cases callee with
      | method _ object _ =>
        refine Laid.call rfl rfl rfl ?_
        apply Laid.followed _ (.one (by nofun))
        apply passed.seq (object.laid_spots _)
      | _ =>
        refine Laid.call rfl rfl rfl ?_
        apply passed.seq (called _)

theorem Expr.laid_listSpots :
  (es : List Expr) → ∀ {aims : Aim → Nat} (start : Nat),
    Laid aims (Expr.listSpots site start es) start (Expr.pieces site es)
  | [], _, _ => .empty
  | e :: rest, _, start => (e.laid_spots start).seq (Expr.laid_listSpots rest _)

theorem Expr.laid_targetSpots (position : Position) (target : Expr) {aims : Aim → Nat} (start : Nat) :
  Laid aims (target.targetSpots site start) start (target.storePiece site position)
  := by
  cases target with
  | index _ array i =>
    apply ((array.laid_spots start).seq (i.laid_spots _)).followed (.one (by nofun))
  | field _ object _ => apply (object.laid_spots start).followed (.one (by nofun))
  | var m place => apply Laid.one ((Directive.plain_store _ _ place).ne_invoke (.inr rfl))
  | _ => apply Laid.one (by nofun)

end

theorem Expr.laid_effectSpots (e : Expr) (start : Nat) :
  Laid aims (e.effectSpots site start) start (e.effectPiece site)
  := by
  cases e with
  | assign m target value =>
    apply (value.laid_spots start).seq (target.laid_targetSpots m.position _)
  | _ => apply (Expr.laid_spots _ start).followed (.one (by nofun))

theorem laid_optionalEffectSpots (e : Option Expr) (start : Nat) :
  Laid aims (optionalEffectSpots site start e) start (optionalEffectPiece site e)
  := by
  cases e with
  | none => exact .empty
  | some e => apply e.laid_effectSpots

theorem laid_loopConditionPiece (condition : Option Expr) (start : Nat) :
  Laid aims (optionalSpots site start condition) start (loopConditionPiece site condition)
  := by
  cases condition with
  | none => exact .empty
  | some condition => apply (condition.laid_spots start).followed (.jump rfl)

/-- A jump out of a loop, or nothing outside of loops. -/
theorem laid_leavePiece {inLoop : Bool} {position : Position} {aim : Aim} {start : Nat} :
  Laid aims [] start (if inLoop then site.jump position .jump aim else .empty)
  := by
  split
  · exact .jump rfl
  · exact .empty

theorem laid_returnPiece (position : Position) (value : Option Expr) (start : Nat) :
  Laid aims (optionalSpots site start value) start (returnPiece site position value)
  := by
  cases value with
  | none =>
    apply Laid.followed _ (.one (by nofun))
    exact .one ((Directive.plain_default _).ne_invoke (.inl rfl))
  | some value => apply (value.laid_spots start).followed (.one (by nofun))

theorem laid_branchPiece {condition : Expr} {body others : Piece} {inBody inOthers : List Spot}
    {start : Nat} {loop : Option (Nat × Nat)}
    (places : LoopPlaces aims loop (start + (branchPiece site condition body others).size))
    (block : ∀ aims, LoopPlaces aims loop (branchBody site start condition + body.size) →
      Laid aims inBody (branchBody site start condition) body)
    (rest : ∀ aims,
      LoopPlaces aims loop
        (branchBody site start condition + body.size + Op.jump.size + others.size) →
      Laid aims inOthers (branchBody site start condition + body.size + Op.jump.size) others) :
  Laid aims (condition.spots site start ++ inBody ++ inOthers) start
    (branchPiece site condition body others)
  := by
  simp only [branchBody, ← Nat.add_assoc] at block rest
  simp only [branchPiece, Piece.size, Site.jump, ← Nat.add_assoc] at places
  have updated (place : Nat) := places.update .next (by decide) (by decide) place
  apply Laid.mark
  apply Laid.seq
  · apply Laid.followed _ (.jump rfl)
    apply Laid.seq
    · apply (condition.laid_spots start).followed (.jump rfl)
    · simp only [Piece.size, Site.jump, ← Nat.add_assoc]
      exact block _ ((updated _).mono (by omega))
  · simp only [Piece.size, Site.jump, ← Nat.add_assoc]
    exact rest _ (updated _)

theorem laid_loopPiece {position : Position} {condition post : Option Expr} {body : Piece}
    {inBody : List Spot} {start first next done : Nat}
    (first_eq : first = start + (loopConditionPiece site condition).size)
    (next_eq : next = first + body.size)
    (done_eq : done = next + (optionalEffectPiece site post).size + Op.jump.size)
    (block : ∀ aims, LoopPlaces aims (some (done, next)) (first + body.size) →
      Laid aims inBody first body) :
  Laid aims (optionalSpots site start condition ++ inBody ++ optionalEffectSpots site next post) start
    (loopPiece site position condition body post)
  := by
  subst done_eq next_eq first_eq
  apply Laid.mark
  apply (Laid.seq .empty _ : Laid _ ([] ++ _) _ _)
  apply Laid.mark
  apply Laid.followed _ .empty
  apply Laid.mark
  apply Laid.seq
  · apply (laid_loopConditionPiece condition start).seq
    apply block
    rintro done next inside
    cases inside
    refine ⟨?_, ?_, Nat.le_refl _, by omega⟩
    · rw [Function.update_of_ne (by decide), Function.update_self]
      simp only [Piece.size, Site.jump, ← Nat.add_assoc, Nat.add_zero]
    · rw [Function.update_self]
      simp only [Piece.size, ← Nat.add_assoc, Nat.add_zero]
  · apply Laid.followed _ (.jump rfl)
    rw [Piece.size, Piece.size, Nat.add_zero, ← Nat.add_assoc]
    apply laid_optionalEffectSpots

end

mutual

theorem Stmt.laid_spots {loop : Option (Nat × Nat)} :
  (s : Stmt) → ∀ {site : Site} {aims : Aim → Nat} {start : Nat},
    LoopPlaces aims loop (start + (s.piece site loop.isSome).size) →
    Laid aims (s.spots site loop start) start (s.piece site loop.isSome)
  | .expression _ e, _, _, start, places => (e.laid_effectSpots start).stmt places
  | .declaration _ _ _ none, _, _, _, places => Laid.empty.stmt places
  | .declaration _ place _ (some initial), _, _, start, places =>
      ((initial.laid_spots start).followed
        (.one ((Directive.plain_store _ _ place).ne_invoke (.inr rfl)))).stmt places
  | .branch p condition thenBlock elifs elseBlock, site, aims, start, places => by
      refine Laid.stmt ?_ places
      apply Laid.mark
      apply Laid.followed _ .empty
      apply laid_branchPiece (places.update .done (by decide) (by decide) _)
      · intro aims placed
        apply Stmt.laid_listSpots thenBlock placed
      · intro aims placed
        rw [Piece.size, ← Nat.add_assoc] at placed
        apply (Elif.laid_spots elifs (placed.mono (Nat.le_add_right _ _))).seq
        apply Stmt.laid_elseSpots elseBlock placed
  | .loop p init condition post body, site, aims, start, places => by
      refine Laid.stmt ?_ places
      apply (laid_optionalEffectSpots init start).seq
      apply laid_loopPiece rfl rfl rfl
      intro aims placed
      apply Stmt.laid_listSpots body placed
  | .ret p value, _, _, start, places => (laid_returnPiece p value start).stmt places
  | .break_ _, _, _, _, places | .continue_ _, _, _, _, places => laid_leavePiece.stmt places
  | .block _ statements, _, _, _, places => (Stmt.laid_listSpots statements places).stmt places

theorem Stmt.laid_listSpots {loop : Option (Nat × Nat)} :
  (ss : List Stmt) → ∀ {site : Site} {aims : Aim → Nat} {start : Nat},
    LoopPlaces aims loop (start + (Stmt.pieces site loop.isSome ss).size) →
    Laid aims (Stmt.listSpots site loop start ss) start (Stmt.pieces site loop.isSome ss)
  | [], _, _, _, _ => .empty
  | s :: rest, _, _, _, places => by
      rw [Stmt.pieces, Piece.size, ← Nat.add_assoc] at places
      apply (s.laid_spots (places.mono (Nat.le_add_right _ _))).seq
      apply Stmt.laid_listSpots rest places

theorem Elif.laid_spots {loop : Option (Nat × Nat)} :
  (elifs : List Elif) → ∀ {site : Site} {aims : Aim → Nat} {start : Nat},
    LoopPlaces aims loop (start + (Elif.pieces site loop.isSome elifs).size) →
    Laid aims (Elif.spots site loop start elifs) start (Elif.pieces site loop.isSome elifs)
  | [], _, _, _, _ => .empty
  | .mk _ body :: rest, _, _, _, places =>
      laid_branchPiece places (fun _ placed => Stmt.laid_listSpots body placed)
        fun _ placed => Elif.laid_spots rest placed

theorem Stmt.laid_elseSpots {loop : Option (Nat × Nat)} :
  (body : Option (List Stmt)) → ∀ {site : Site} {aims : Aim → Nat} {start : Nat},
    LoopPlaces aims loop (start + (Stmt.elsePiece site loop.isSome body).size) →
    Laid aims (Stmt.elseSpots site loop start body) start (Stmt.elsePiece site loop.isSome body)
  | none, _, _, _, _ => .empty
  | some body, _, _, _, places => Stmt.laid_listSpots body places

end

theorem Program.laid_spots (p : Program) (current : Option Nat) :
  Laid (fun _ => 0) (p.spots current) 0 (p.piece current)
  := by
  cases current with
  | none => exact Stmt.laid_listSpots p.statements (by nofun)
  | some index =>
    cases found : p.functions[index]? with
    | none => simp [Program.piece, Program.spots, found, Laid.empty]
    | some f =>
      cases bodied : f.body with
      | none => simp [Program.piece, Program.spots, found, bodied, Laid.empty]
      | some body =>
        simp only [Program.piece, Program.spots, found, bodied, Option.map_some,
          Option.getD_some]
        apply (Stmt.laid_listSpots body (by nofun)).followed
        split
        · exact .empty
        · apply laid_returnPiece f.position none

/-- All code of a body is where it is listed. -/
theorem Program.located_of_mem_spots (p : Program) (current : Option Nat) :
  ∀ spot ∈ p.spots current, spot.Located (p.points current)
  := (p.laid_spots current).located fun point listed => ⟨point.depth, listed⟩

/-- Every call instruction of a body is the last one of the code of a call. -/
theorem Program.exists_call {p : Program} {current : Option Nat} {point : Point}
    (listed : point ∈ p.points current) (invokes : point.op = .invoke) :
  ∃ spot ∈ p.spots current, spot.callArgs? = some point.args ∧ spot.stop = point.next
  := (p.laid_spots current).callsIn.exists_call _ _ point listed invokes

/-- The code of different calls ends at different places. -/
theorem Program.eq_of_call {p : Program} {current : Option Nat} {spot spot' : Spot}
    (listed : spot ∈ p.spots current) (listed' : spot' ∈ p.spots current)
    (isCall : spot.callArgs?.isSome) (isCall' : spot'.callArgs?.isSome)
    (same : spot.stop = spot'.stop) :
  spot = spot'
  := (p.laid_spots current).callsIn.unique spot listed spot' listed' isCall isCall' same

end Bytecode
