import Mathlib
import Bytecode.Proofs.Generate.Spots
import Bytecode.Proofs.Machine.Closed

/-!
# Balance of the operand stack

Control is followed through the code of an expression or of a statement from its first byte, and
the effects of the instructions on the number of operands are added up: `Path`. The effect of an
instruction is that of its opcode, `Op.stackEffect`, except that a call counts for its arguments and
an array literal for its items: `Program.Counts`.

However control goes, the code of an expression adds one operand, that of a statement adds none, a
return is reached with one operand, and no place of a body is reached with two different numbers of
operands: `balanced_of_compile`.
-/

namespace Bytecode

open Piece

/-- Where control may be after the instruction. A call is taken as a whole, up to its return. -/
def Instruction.goesTo (i : Instruction) : List Nat :=
  match i.op with
  | .jump => [i.number]
  | .jumpIfTrue | .jumpIfFalse => [i.number, i.nextPc]
  | .ret => []
  | _ => [i.nextPc]

/-- What an instruction of a body adds to the number of operands. The instruction of a call, which
is the last one of its code, takes the arguments and leaves the result in place of the function. -/
def Program.Counts (p : Program) (current : Option Nat) (i : Instruction) (effect : Int) : Prop :=
  match i.op with
  | .invoke => ∃ call ∈ p.spots current, ∃ args : Nat,
      call.callArgs? = some args ∧ call.stop = i.nextPc ∧ effect = -args
  | .newArrayLiteral _ => effect = 1 - i.number
  | op => effect = op.stackEffect

/-- Control goes from the start of a stretch of code through its instructions to a place, which is
the first one outside if it is outside. Given is what this adds to the number of operands. -/
inductive Path (p : Program) (current : Option Nat) (code : Array UInt8) (start stop : Nat) :
    Int → Nat → Prop
  | start : Path p current code start stop 0 start
  | step {rise effect : Int} {pc next : Nat} {i : Instruction} :
      Path p current code start stop rise pc → start ≤ pc → pc < stop →
      fetch code pc = .ok i → p.Counts current i effect → next ∈ i.goesTo →
      Path p current code start stop (rise + effect) next

/-- Control is at an instruction of a stretch of code, with no fewer operands than at its start. A
return finds one operand more. -/
structure Amid (p : Program) (current : Option Nat) (code : Array UInt8) (start stop : Nat)
    (rise : Int) (pc : Nat) : Prop where
  start_le : start ≤ pc
  lt_stop : pc < stop
  nonneg : 0 ≤ rise
  instruction : ∃ i effect, fetch code pc = .ok i ∧ p.Counts current i effect
    ∧ (i.op = .ret → rise = 1)

/-! ### Effects -/

/-- The effect of an opcode is what it leaves in place of what it takes. -/
theorem Op.stackEffect_eq {op : Op} (noCall : op ≠ .invoke) (noReturn : op ≠ .ret)
    (noLiteral : ∀ kind, op ≠ .newArrayLiteral kind) (args : Nat) :
  op.stackEffect = op.leaves - op.takes args
  := by
  cases op with
  | invoke | ret => contradiction
  | newArrayLiteral kind => exact absurd rfl (noLiteral kind)
  | _ => rfl

/-- The code of a call ends with the instruction that makes it. -/
theorem Spot.exists_invoke {spot : Spot} {args : Nat} (isCall : spot.callArgs? = some args)
    (aims : Aim → Nat) :
  ∃ point ∈ spot.piece.points aims spot.start 0, point.op = .invoke ∧ point.args = args
    ∧ point.next = spot.stop
  := by
  obtain ⟨construct, site, start⟩ := spot
  cases construct with
  | stmt loop s => cases isCall
  | expr e =>
    cases e with
    | call m callee values =>
      cases callee
      all_goals
        cases isCall
        refine ⟨_, List.mem_append_right _ (List.mem_singleton_self _), rfl, rfl, ?_⟩
        rw [Spot.stop, Point.next, Nat.add_assoc]
        rfl
    | _ => cases isCall

section

variable {p : Program} {current : Option Nat} {constants : Array Constant} {lines : Array LineRun}
  {i : Instruction} {point : Point} {effect : Int}

/-- A call instruction is counted for as many arguments as it was generated for. -/
theorem Program.args_eq_of_call {call : Spot} {args : Nat} (listed : point ∈ p.points current)
    (invokes : point.op = .invoke) (isIn : call ∈ p.spots current)
    (isCall : call.callArgs? = some args) (ends : call.stop = point.next) :
  args = point.args
  := by
  obtain ⟨aims, within, -⟩ := p.located_of_mem_spots current call isIn
  obtain ⟨point', inside, invokes', passed, next⟩ := Spot.exists_invoke isCall aims
  obtain ⟨depth, listed'⟩ := within point' inside
  have same : point.pc = point'.pc := by
    rw [ends] at next
    simp only [Point.next, invokes, invokes'] at next
    omega
  have equal : { point' with depth } = point := Piece.eq_of_mem_points listed' listed same.symm
  rw [← passed, ← equal]

theorem Program.proper_of_listed (listed : point ∈ p.points current) :
  point.toDirective.Proper (p.frame current).1 fun _ => True
  := by
  apply Program.proper_of_mem_points _ _ listed
  · exact fun _ _ _ _ _ _ _ _ => trivial
  · exact fun _ _ _ => trivial

/-- Instructions that go on are counted for what they leave in place of what they take. -/
theorem Program.Counts.effect_eq (counts : p.Counts current i effect)
    (listed : point ∈ p.points current) (encodes : point.Encodes constants lines i)
    (noReturn : point.op ≠ .ret) :
  effect = point.leaves - point.takes
  := by
  have proper := Program.proper_of_listed listed
  have pc := encodes.1
  have op := encodes.2.1
  unfold Program.Counts at counts
  split at counts
  · next invokes =>
      obtain ⟨call, isIn, args, isCall, ends, rfl⟩ := counts
      rw [op] at invokes
      have next : call.stop = point.next := by
        rw [ends, Instruction.nextPc, pc, op, Point.next]
      rw [Program.args_eq_of_call listed invokes isIn isCall next]
      simp only [Directive.leaves, Directive.takes, invokes, Op.leaves, Op.takes]
      omega
  · next kind literal =>
      rw [op] at literal
      rw [Directive.Proper, literal] at proper
      rw [counts, encodes.number_eq proper]
      simp only [Directive.leaves, Directive.takes, literal, Op.leaves, Op.takes]
      omega
  · next noCall noLiteral =>
      rw [counts, op]
      rw [op] at noCall noLiteral
      apply Op.stackEffect_eq noCall noReturn noLiteral

theorem Program.exists_counts (listed : point ∈ p.points current)
    (encodes : point.Encodes constants lines i) :
  ∃ effect, p.Counts current i effect
  := by
  unfold Program.Counts
  split
  · next invokes =>
      rw [encodes.2.1] at invokes
      obtain ⟨call, isIn, isCall, ends⟩ := Program.exists_call listed invokes
      refine ⟨-point.args, call, isIn, point.args, isCall, ?_, rfl⟩
      rw [ends, Point.next, Instruction.nextPc, encodes.1, encodes.2.1]
  · exact ⟨_, rfl⟩
  · exact ⟨_, rfl⟩

/-- Where control goes from an instruction is where it was planned to go, with the number of
operands that was planned. -/
theorem Program.Counts.exists_successor (counts : p.Counts current i effect) {depth : Nat}
    (listed : { point with depth } ∈ p.points current) (encodes : point.Encodes constants lines i)
    (enough : point.takes ≤ point.depth) {next : Nat} (goes : next ∈ i.goesTo) :
  ∃ depth' : Nat, (next, depth') ∈ point.successors ∧ point.depth + effect = depth'
  := by
  have noReturn : point.op ≠ .ret := by
    intro returns
    rw [Instruction.goesTo, encodes.2.1, returns] at goes
    cases goes
  have planned : ({ point with depth } : Point).Encodes constants lines i := encodes
  have effect_eq := counts.effect_eq listed planned noReturn
  have proper := Program.proper_of_listed listed
  have nextPc : i.nextPc = point.next := by
    rw [Instruction.nextPc, Point.next, encodes.1, encodes.2.1]
  have target (jumps : point.op.isJump) : i.number = point.target :=
    (encodes.target_eq proper jumps).symm
  simp only [Directive.leaves, Directive.takes] at effect_eq enough
  unfold Instruction.goesTo at goes
  rw [encodes.2.1, nextPc] at goes
  split at goes
  · next op =>
      simp only [op, Op.leaves, Op.takes, Point.successors] at effect_eq enough ⊢
      rw [target (by rw [op]; rfl)] at goes
      obtain rfl := List.mem_singleton.1 goes
      exact ⟨_, List.mem_singleton_self _, by omega⟩
  iterate 2
    · next op =>
        simp only [op, Op.leaves, Op.takes, Point.successors] at effect_eq enough ⊢
        rw [target (by rw [op]; rfl)] at goes
        simp only [List.mem_cons, Prod.mk.injEq, List.not_mem_nil, or_false] at goes ⊢
        refine ⟨point.depth - 1, ?_, by omega⟩
        exact goes.imp (fun same => ⟨same, rfl⟩) (fun same => ⟨same, rfl⟩)
  · next op => contradiction
  · next noJump noJumpIfTrue noJumpIfFalse _ =>
      have plain : point.op.isJump = false := by simp_all [Op.isJump]
      obtain rfl := List.mem_singleton.1 goes
      rw [Point.successors_of_plain plain noReturn]
      refine ⟨_, List.mem_singleton_self _, ?_⟩
      simp only [Directive.leaves, Directive.takes]
      omega

end

/-! ### Paths -/

section

variable {p : Program} {exe : Executable} {current : Option Nat} {block : CodeBlock}
  {ps : List Point} {exits : Nat → Nat → Prop} {start stop : Nat}
variable {pc : Nat} {rise : Int} {aims : Aim → Nat}

/-- Control stays where it was planned to be, with the numbers of operands that were planned, until
it leaves by an exit. -/
theorem Path.lands_or_exits (compiled : CompiledFrom p exe)
    (coded : exe.code? current = some block) (flows : Flows ps exits)
    (amid : ∀ point ∈ ps, ∃ depth, { point with depth } ∈ p.points current)
    (enters : Lands ps start 0 ∨ exits start 0)
    (outside : ∀ pc depth, exits pc depth → pc < start ∨ stop ≤ pc)
    (path : Path p current block.code start stop rise pc) :
  ∃ depth : Nat, rise = depth ∧ (Lands ps pc depth ∨ exits pc depth)
  := by
  induction path with
  | start => exact ⟨0, rfl, enters⟩
  | @step rise effect pc next i _ after before fetched counts goes ih =>
    obtain ⟨depth, rfl, lands | out⟩ := ih
    · obtain ⟨point, listed, rfl, rfl⟩ := lands
      obtain ⟨depth, planned⟩ := amid point listed
      obtain ⟨operand, found, denotes, line⟩ := (compiled.encodes coded).fetch_eq_ok planned
      obtain rfl := Except.ok.inj (found.symm.trans fetched)
      obtain ⟨enough, onward⟩ := flows point listed
      obtain ⟨depth', successor, rises⟩ :=
        counts.exists_successor planned ⟨rfl, rfl, denotes, line⟩ enough goes
      exact ⟨depth', rises, onward _ successor⟩
    · have bounds := outside pc depth out
      omega

/-- Control at a planned instruction is amid the code. -/
theorem amid_of_lands {q : Piece} {depths : Aim → Option Nat} {end_ : Option Nat}
    (compiled : CompiledFrom p exe) (coded : exe.code? current = some block)
    (typed : Typed depths 0 q end_) (within : q.Within (p.points current) aims start)
    {depth : Nat} (lands : Lands (q.points aims start 0) pc depth) :
  Amid p current block.code start (start + q.size) depth pc
  := by
  obtain ⟨point, listed, rfl, rfl⟩ := lands
  have bounds := bounds_of_mem_points listed
  have positive := point.op.size_pos
  unfold Point.next at bounds
  obtain ⟨depth, planned⟩ := within point listed
  obtain ⟨operand, fetched, denotes, line⟩ := (compiled.encodes coded).fetch_eq_ok planned
  have encodes : ({ point with depth } : Point).Encodes exe.constants block.lines
      ⟨point.pc, point.op, operand⟩ := ⟨rfl, rfl, denotes, line⟩
  obtain ⟨effect, counts⟩ := Program.exists_counts planned encodes
  refine ⟨bounds.1, by omega, Int.natCast_nonneg _, _, effect, fetched, counts, ?_⟩
  intro returns
  rw [typed.depth_of_ret listed returns]
  rfl

/-- The numbers of operands at the ends of the loop around a statement. -/
def loopDepths (inLoop : Bool) (aim : Aim) : Option Nat :=
  if inLoop ∧ (aim = .break_ ∨ aim = .continue_) then some 0 else none

theorem loopAims_loopDepths (inLoop : Bool) :
  LoopAims inLoop (loopDepths inLoop)
  := by
  intro inside
  simp [loopDepths, inside]

/-- The exits of a statement are its end and those of the loop around it. -/
theorem LoopPlaces.of_exits {loop : Option (Nat × Nat)} (places : LoopPlaces aims loop stop)
    {depth : Nat} (out : Exits (loopDepths loop.isSome) aims stop (some 0) pc depth) :
  stop ≤ pc ∧ depth = 0
    ∧ (pc = stop ∨ ∃ done next, loop = some (done, next) ∧ (pc = done ∨ pc = next))
  := by
  rcases out with ⟨rfl, ends⟩ | ⟨aim, named, rfl⟩
  · cases ends
    exact ⟨Nat.le_refl _, rfl, .inl rfl⟩
  · cases loop with
    | none => simp [loopDepths] at named
    | some ends =>
        obtain ⟨done, next⟩ := ends
        obtain ⟨breaks, continues, behind, order⟩ := places done next rfl
        unfold loopDepths at named
        split at named
        · next aimed =>
            cases named
            rcases aimed.2 with rfl | rfl
            · rw [breaks]
              exact ⟨Nat.le_trans behind order, rfl, .inr ⟨done, next, rfl, .inl rfl⟩⟩
            · rw [continues]
              exact ⟨behind, rfl, .inr ⟨done, next, rfl, .inr rfl⟩⟩
        · cases named

section

variable (compiled : CompiledFrom p exe) (coded : exe.code? current = some block)
include compiled coded

/-- Control in the code of an expression stays there or reaches its end with one operand more. -/
theorem Path.of_expr {e : Expr} {site : Site}
    (within : (e.piece site).Within (p.points current) aims start)
    (path : Path p current block.code start (start + (e.piece site).size) rise pc) :
  Amid p current block.code start (start + (e.piece site).size) rise pc
    ∨ (pc = start + (e.piece site).size ∧ rise = 1)
  := by
  have typed := e.typed_piece site (fun _ => none) 0
  have leaves {pc depth : Nat}
      (out : Exits (fun _ => none) aims (start + (e.piece site).size) (some (0 + 1)) pc depth) :
      pc = start + (e.piece site).size ∧ depth = 1 := by
    rcases out with ⟨rfl, ends⟩ | ⟨aim, impossible, -⟩
    · cases ends
      exact ⟨rfl, rfl⟩
    · cases impossible
  obtain ⟨depth, rfl, lands | out⟩ := path.lands_or_exits compiled coded (typed.flows aims start)
    within (typed.enters_or_exits _ _ _ _) fun pc depth out => .inr (Nat.le_of_eq (leaves out).1.symm)
  · exact .inl (amid_of_lands compiled coded typed within lands)
  · obtain ⟨rfl, rfl⟩ := leaves out
    exact .inr ⟨rfl, rfl⟩

/-- Control in the code of a statement stays there, or reaches its end or an end of the loop around
it with as many operands. -/
theorem Path.of_stmt {s : Stmt} {site : Site} {loop : Option (Nat × Nat)}
    (within : (s.piece site loop.isSome).Within (p.points current) aims start)
    (places : LoopPlaces aims loop (start + (s.piece site loop.isSome).size))
    (path : Path p current block.code start (start + (s.piece site loop.isSome).size) rise pc) :
  Amid p current block.code start (start + (s.piece site loop.isSome).size) rise pc
    ∨ (rise = 0 ∧ (pc = start + (s.piece site loop.isSome).size
      ∨ ∃ done next, loop = some (done, next) ∧ (pc = done ∨ pc = next)))
  := by
  have typed := s.typed_piece site (loopAims_loopDepths loop.isSome)
  obtain ⟨depth, rfl, lands | out⟩ := path.lands_or_exits compiled coded (typed.flows aims start)
    within (typed.enters_or_exits _ _ _ _) fun pc depth out => .inr (places.of_exits out).1
  · exact .inl (amid_of_lands compiled coded typed within lands)
  · obtain ⟨-, rfl, left⟩ := places.of_exits out
    exact .inr ⟨rfl, left⟩

/-- Control in a body is where it was planned to be. -/
theorem Path.of_body (path : Path p current block.code 0 block.code.size rise pc) :
  ∃ depth : Nat, rise = depth
    ∧ (Lands (p.points current) pc depth ∨ (pc = block.code.size ∧ depth = 0))
  := by
  have size := (compiled.encodes coded).size_eq
  have enters : Lands (p.points current) 0 0
      ∨ (current = none ∧ 0 = (p.piece current).size ∧ 0 = 0) := by
    cases current with
    | none => exact p.lands_points_topLevel.imp_right fun empty => ⟨rfl, empty.symm, rfl⟩
    | some index =>
      obtain ⟨g, isFunction, hasCode⟩ := Option.bind_eq_some_iff.1 coded
      exact .inl (compiled.lands_points isFunction (by simp [Function.isNative, hasCode]))
  obtain ⟨depth, rises, lands | ⟨-, ends, rfl⟩⟩ := path.lands_or_exits compiled coded
    (p.flows_points current) (fun point listed => ⟨point.depth, listed⟩) enters
    (fun pc depth out => .inr (Nat.le_of_eq (size.trans out.2.1.symm)))
  · exact ⟨depth, rises, .inl lands⟩
  · exact ⟨0, rises, .inr ⟨ends.trans size.symm, rfl⟩⟩

/-- No place of a body is reached with two different numbers of operands. -/
theorem Path.rise_unique {rise' : Int} (path : Path p current block.code 0 block.code.size rise pc)
    (path' : Path p current block.code 0 block.code.size rise' pc) :
  rise = rise'
  := by
  have size := (compiled.encodes coded).size_eq
  have inside {depth : Nat} (lands : Lands (p.points current) pc depth) : pc < block.code.size := by
    obtain ⟨point, listed, rfl, -⟩ := lands
    have bounds := bounds_of_mem_points listed
    have positive := point.op.size_pos
    unfold Point.next at bounds
    omega
  obtain ⟨depth, rfl, lands | ⟨ends, rfl⟩⟩ := path.of_body compiled coded
  · obtain ⟨depth', rfl, lands' | ⟨ends', rfl⟩⟩ := path'.of_body compiled coded
    · obtain ⟨point, listed, rfl, rfl⟩ := lands
      obtain ⟨point', listed', same, rfl⟩ := lands'
      rw [Piece.eq_of_mem_points listed' listed same]
    · exact absurd ends' (Nat.ne_of_lt (inside lands))
  · obtain ⟨depth', rfl, lands' | ⟨ends', rfl⟩⟩ := path'.of_body compiled coded
    · exact absurd ends (Nat.ne_of_lt (inside lands'))
    · rfl

end

end

/-- The code of a compiled program is balanced. Control that enters the code of an expression stays
there, with no fewer operands, until it reaches the end with one operand more. Control that enters
the code of a statement stays there, with no fewer operands, until it reaches the end, or an end of
the loop around it, with as many operands; returns find one operand more. Two paths through a body
that meet have the same number of operands. -/
theorem balanced_of_compile {p : Program} {exe : Executable} {current : Option Nat}
    {block : CodeBlock} (compiled : compile p = .ok exe) (coded : exe.code? current = some block) :
  (∀ spot ∈ p.spots current, ∀ rise pc,
      Path p current block.code spot.start spot.stop rise pc →
      match spot.construct with
      | .expr _ => Amid p current block.code spot.start spot.stop rise pc
          ∨ (pc = spot.stop ∧ rise = 1)
      | .stmt loop _ => Amid p current block.code spot.start spot.stop rise pc
          ∨ (rise = 0 ∧ (pc = spot.stop
            ∨ ∃ done next, loop = some (done, next) ∧ (pc = done ∨ pc = next))))
    ∧ ∀ rise rise' pc, Path p current block.code 0 block.code.size rise pc →
      Path p current block.code 0 block.code.size rise' pc → rise = rise'
  := by
  have fromProgram := compile_eq_ok compiled
  refine ⟨?_, fun rise rise' pc path path' => path.rise_unique fromProgram coded path'⟩
  rintro ⟨construct, site, start⟩ isIn rise pc path
  obtain ⟨aims, within, places⟩ := p.located_of_mem_spots current _ isIn
  cases construct with
  | expr e => apply path.of_expr fromProgram coded within
  | stmt loop s => apply path.of_stmt fromProgram coded within places

def skipCondition : Expr :=
  .binary ⟨.boolean, {}⟩ .and (.readGlobal 0 .boolean) (.readGlobal 1 .boolean)

/-- A loop that goes on while two globals hold. -/
def skipLoop : Program where
  globals := [⟨"a", .boolean⟩, ⟨"b", .boolean⟩]
  statements := [.loop {} none (some skipCondition) none [.break_ {}]]

def skipExecutable : Executable where
  globals := #[⟨"a", .boolean⟩, ⟨"b", .boolean⟩]
  topLevel := ⟨#[14, 0, 0, 72, 75, 0, 11, 71, 14, 0, 1, 75, 0, 20, 73, 0, 20, 73, 0, 0],
    #[⟨0, 0, 20⟩]⟩

/-- The code of the condition has eleven bytes, with or without its second operand. -/
theorem balanced_skipLoop :
  compile skipLoop = .ok skipExecutable
    ∧ ∀ rise pc, Path skipLoop none skipExecutable.topLevel.code 0 11 rise pc →
      Amid skipLoop none skipExecutable.topLevel.code 0 11 rise pc ∨ (pc = 11 ∧ rise = 1)
  := by
  have compiled : compile skipLoop = .ok skipExecutable := by cbv
  have coded : skipExecutable.code? none = some skipExecutable.topLevel := rfl
  have listed : ⟨.expr skipCondition, ⟨0, .void, 0⟩, 0⟩ ∈ skipLoop.spots none :=
    List.mem_cons_of_mem _ List.mem_cons_self
  exact ⟨compiled, (balanced_of_compile compiled coded).1 _ listed⟩

end Bytecode
