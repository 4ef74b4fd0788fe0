import Mathlib
import Bytecode.Proofs.Generate.Piece

/-!
# Charts

A chart of code describes the stack before each instruction, such that the description is the right
one wherever control goes on. What an instruction makes of a description is given by a rule, which
may depend on the place of the instruction; descriptions may be anything that says how many
operands there are.

A piece `Carries` descriptions from its start to its end and to the aims of its jumps when it can
be derived so from its parts. It then has a chart, `Carries.exists_chart`. Numbers of operands are
the simplest descriptions, and a typed piece carries them; so control flows through it as planned,
`Typed.flows`.
-/

namespace Bytecode

variable {S : Type}

/-- The chart describes the stack at the place. -/
def Marks (chart : List (Point × S)) (pc : Nat) (s : S) : Prop :=
  ∃ point, (point, s) ∈ chart ∧ point.pc = pc

theorem Marks.append_left {chart chart' : List (Point × S)} {pc : Nat} {s : S}
    (marks : Marks chart pc s) :
  Marks (chart ++ chart') pc s
  := by
  obtain ⟨point, listed, here⟩ := marks
  exact ⟨point, List.mem_append_left _ listed, here⟩

theorem Marks.append_right {chart chart' : List (Point × S)} {pc : Nat} {s : S}
    (marks : Marks chart' pc s) :
  Marks (chart ++ chart') pc s
  := by
  obtain ⟨point, listed, here⟩ := marks
  exact ⟨point, List.mem_append_right _ listed, here⟩

section

variable (height : S → Nat) (rule : Nat → Directive → S → S → Prop)

/-- The instruction makes a description of another that is awaited wherever it goes on. -/
def Point.Follows (Awaits : Nat → S → Prop) (point : Point) (s : S) : Prop :=
  ∃ s', rule point.pc point.toDirective s s' ∧ ∀ next ∈ point.successors, Awaits next.1 s'

/-- Every instruction has as many operands as its description says, and goes on where its
description is followed by the one of the chart or by one that is awaited at an exit. -/
structure Charted (chart : List (Point × S)) (Exits : Nat → S → Prop) : Prop where
  height : ∀ point s, (point, s) ∈ chart → point.depth = height s
  follows : ∀ point s, (point, s) ∈ chart →
    point.Follows rule (fun pc s => Marks chart pc s ∨ Exits pc s) s

end

section

variable {height : S → Nat} {rule : Nat → Directive → S → S → Prop}
  {chart chart' : List (Point × S)} {Exits Exits' Exits'' : Nat → S → Prop}

theorem Point.Follows.mono {Awaits Awaits' : Nat → S → Prop} {point : Point} {s : S}
    (follows : point.Follows rule Awaits s) (more : ∀ pc s, Awaits pc s → Awaits' pc s) :
  point.Follows rule Awaits' s
  := by
  obtain ⟨s', moves, awaits⟩ := follows
  exact ⟨s', moves, fun next successor => more _ _ (awaits next successor)⟩

theorem Charted.nil :
  Charted height rule [] Exits
  := ⟨fun _ _ listed => absurd listed List.not_mem_nil,
    fun _ _ listed => absurd listed List.not_mem_nil⟩

theorem Charted.singleton {point : Point} {s : S} (depth : point.depth = height s)
    (follows : point.Follows rule Exits s) :
  Charted height rule [(point, s)] Exits
  := by
  constructor
  · rintro point' s' listed
    cases List.mem_singleton.1 listed
    exact depth
  · rintro point' s' listed
    cases List.mem_singleton.1 listed
    exact follows.mono fun _ _ => .inr

theorem Charted.mono (charted : Charted height rule chart Exits)
    (more : ∀ pc s, Exits pc s → Exits' pc s) :
  Charted height rule chart Exits'
  where
  height := charted.height
  follows point s listed :=
    (charted.follows point s listed).mono fun _ _ there => there.imp_right (more _ _)

/-- Two charts make one if the exits of each lead into the second one or are exits of the whole. -/
theorem Charted.append (first : Charted height rule chart Exits)
    (second : Charted height rule chart' Exits')
    (leave : ∀ pc s, Exits pc s → Marks chart' pc s ∨ Exits'' pc s)
    (leave' : ∀ pc s, Exits' pc s → Marks chart' pc s ∨ Exits'' pc s) :
  Charted height rule (chart ++ chart') Exits''
  where
  height point s listed := by
    rcases List.mem_append.1 listed with left | right
    · exact first.height point s left
    · exact second.height point s right
  follows point s listed := by
    rcases List.mem_append.1 listed with left | right
    · apply (first.follows point s left).mono
      rintro pc s' (marks | out)
      · exact .inl marks.append_left
      · exact (leave pc s' out).imp_left Marks.append_right
    · apply (second.follows point s right).mono
      rintro pc s' (marks | out)
      · exact .inl marks.append_right
      · exact (leave' pc s' out).imp_left Marks.append_right

end

namespace Piece

/-- The exits of a piece: its end, and the aims of its jumps. -/
def Awaited (plans : Aim → Option S) (aims : Aim → Nat) (stop : Nat) (stopStack : Option S)
    (pc : Nat) (s : S) : Prop :=
  (pc = stop ∧ stopStack = some s) ∨ ∃ aim, plans aim = some s ∧ pc = aims aim

/-- Descriptions of the stack are carried through a piece. Given are the place of the piece and the
descriptions at its start, at the aims of jumps out of it, and at its end, if that can be
reached. -/
inductive Carries (height : S → Nat) (rule : Nat → Directive → S → S → Prop) :
    (Aim → Option S) → Nat → S → Piece → Option S → Prop
  | empty {plans : Aim → Option S} {pc : Nat} {s : S} :
      Carries height rule plans pc s .empty (some s)
  | one {plans : Aim → Option S} {pc : Nat} {s s' : S} {line : UInt32} {i : Directive} :
      i.op.isJump = false → i.op ≠ .ret → rule pc i s s' →
      Carries height rule plans pc s (.one line i) (some s')
  | ret {plans : Aim → Option S} {pc : Nat} {s s' : S} {line : UInt32} :
      rule pc { op := .ret } s s' → Carries height rule plans pc s (.one line { op := .ret }) none
  | jump {plans : Aim → Option S} {pc : Nat} {s : S} {line : UInt32} {aim : Aim} :
      (∀ place : Nat, rule pc { op := .jump, operand := .number place } s s) →
      plans aim = some s → Carries height rule plans pc s (.jump line .jump aim) none
  | jumpIf {plans : Aim → Option S} {pc : Nat} {s s' : S} {line : UInt32} {op : Op} {aim : Aim} :
      op = .jumpIfTrue ∨ op = .jumpIfFalse →
      (∀ place : Nat, rule pc { op, operand := .number place } s s') → plans aim = some s' →
      Carries height rule plans pc s (.jump line op aim) (some s')
  | seq {plans : Aim → Option S} {pc rise : Nat} {s mid : S} {first second : Piece}
      {stop : Option S} :
      Carries height rule plans pc s first (some mid) → height mid = height s + rise →
      Carries height rule plans (pc + first.size) mid second stop →
      Carries height rule plans pc s (.seq first rise second) stop
  | mark {plans : Aim → Option S} {pc rise : Nat} {s mid : S} {aim : Aim} {first second : Piece}
      {stop : Option S} :
      Carries height rule (Function.update plans aim (some mid)) pc s first (some mid) →
      height mid = height s + rise →
      Carries height rule (Function.update plans aim (some mid)) (pc + first.size) mid second stop →
      Carries height rule plans pc s (.mark aim first rise second) stop
  /-- There is nothing behind an end that cannot be reached. -/
  | unentered {plans : Aim → Option S} {pc rise : Nat} {s : S} {first : Piece} :
      Carries height rule plans pc s first none →
      Carries height rule plans pc s (.seq first rise .empty) none
  /-- An end that cannot be reached can have any description. -/
  | unreached {plans : Aim → Option S} {pc : Nat} {s stop : S} {q : Piece} :
      Carries height rule plans pc s q none → Carries height rule plans pc s q (some stop)

/-- A chart of a piece: the descriptions for its instructions, of which the first one is entered
unless there is none. -/
structure HasChart (height : S → Nat) (rule : Nat → Directive → S → S → Prop)
    (plans : Aim → Option S) (aims : Aim → Nat) (pc : Nat) (s : S) (q : Piece) (stop : Option S)
    (chart : List (Point × S)) : Prop where
  points : chart.map Prod.fst = q.points aims pc (height s)
  enters : Marks chart pc s ∨ (q.size = 0 ∧ stop = some s)
  charted : Charted height rule chart (Awaited plans aims (pc + q.size) stop)

variable {height : S → Nat} {rule : Nat → Directive → S → S → Prop} {plans : Aim → Option S}
  {aims : Aim → Nat} {pc : Nat} {s : S} {q : Piece} {stop : Option S} {chart : List (Point × S)}

/-- From the end of a piece control enters what follows, or what follows has no instructions. -/
theorem HasChart.enters_or_awaited (has : HasChart height rule plans aims pc s q stop chart)
    (plans' : Aim → Option S) (aims' : Aim → Nat) :
  Marks chart pc s ∨ Awaited plans' aims' (pc + q.size) stop pc s
  := by
  apply has.enters.imp_right
  rintro ⟨none, same⟩
  exact .inl ⟨by omega, same⟩

/-- A single instruction has a chart. -/
theorem hasChart_one {line : UInt32} {i : Directive}
    (follows : Point.Follows rule (Awaited plans aims (pc + i.op.size) stop)
      { i with pc, depth := height s, line } s) :
  HasChart height rule plans aims pc s (.one line i) stop
    [({ i with pc, depth := height s, line }, s)]
  where
  points := rfl
  enters := .inl ⟨_, List.mem_singleton_self _, rfl⟩
  charted := .singleton rfl follows

theorem hasChart_jump {line : UInt32} {op : Op} {aim : Aim}
    (follows : Point.Follows rule (Awaited plans aims (pc + op.size) stop)
      { op, operand := .number (aims aim), pc, depth := height s, line } s) :
  HasChart height rule plans aims pc s (.jump line op aim) stop
    [({ op, operand := .number (aims aim), pc, depth := height s, line }, s)]
  where
  points := rfl
  enters := .inl ⟨_, List.mem_singleton_self _, rfl⟩
  charted := .singleton rfl follows

/-- The charts of two pieces one after another make one. The aims may be those of the whole or
lead between the two. -/
theorem HasChart.seq {plans' : Aim → Option S} {aims' : Aim → Nat} {mid : S} {rise : Nat}
    {first second : Piece} {chart' : List (Point × S)} (plans : Aim → Option S) (aims : Aim → Nat)
    (has : HasChart height rule plans' aims' pc s first (some mid) chart)
    (rises : height mid = height s + rise)
    (has' : HasChart height rule plans' aims' (pc + first.size) mid second stop chart')
    (through : ∀ aim s', plans' aim = some s' →
      (aims' aim = pc + first.size ∧ s' = mid) ∨ (plans aim = some s' ∧ aims' aim = aims aim)) :
  (chart ++ chart').map Prod.fst
      = first.points aims' pc (height s)
        ++ second.points aims' (pc + first.size) (height s + rise)
    ∧ (Marks (chart ++ chart') pc s ∨ (first.size + second.size = 0 ∧ stop = some s))
    ∧ Charted height rule (chart ++ chart')
      (Awaited plans aims (pc + (first.size + second.size)) stop)
  := by
  have entered := has'.enters_or_awaited plans aims
  rw [Nat.add_assoc] at entered
  have aimed : ∀ pc' s', (∃ aim, plans' aim = some s' ∧ pc' = aims' aim) →
      Marks chart' pc' s' ∨ Awaited plans aims (pc + (first.size + second.size)) stop pc' s' := by
    rintro pc' s' ⟨aim, there, rfl⟩
    rcases through aim s' there with ⟨between, rfl⟩ | ⟨out, same⟩
    · rw [between]
      exact entered
    · exact .inr (.inr ⟨aim, out, same⟩)
  refine ⟨?_, ?_, has.charted.append has'.charted ?_ ?_⟩
  · rw [List.map_append, has.points, has'.points, rises]
  · rcases has.enters with marks | ⟨none, same⟩
    · exact .inl marks.append_left
    · cases same
      rcases has'.enters with marks | ⟨none', same'⟩
      · rw [none, Nat.add_zero] at marks
        exact .inl marks.append_right
      · exact .inr ⟨by omega, same'⟩
  · rintro pc' s' (⟨rfl, ends⟩ | out)
    · cases ends
      exact entered
    · exact aimed _ _ out
  · rintro pc' s' (⟨rfl, ends⟩ | out)
    · exact .inr (.inl ⟨by omega, ends⟩)
    · exact aimed _ _ out

/-- What carries descriptions has a chart. -/
theorem Carries.exists_chart (carries : Carries height rule plans pc s q stop)
    (aims : Aim → Nat) :
  ∃ chart, HasChart height rule plans aims pc s q stop chart
  := by
  induction carries generalizing aims with
  | empty => exact ⟨[], rfl, .inr ⟨rfl, rfl⟩, .nil⟩
  | @one plans pc s s' line i noJump noReturn moves =>
    refine ⟨_, hasChart_one ⟨s', moves, ?_⟩⟩
    intro next successor
    rw [Point.successors_of_plain noJump noReturn] at successor
    cases List.mem_singleton.1 successor
    exact .inl ⟨rfl, rfl⟩
  | @ret plans pc s s' line moves =>
    refine ⟨_, hasChart_one ⟨s', moves, ?_⟩⟩
    intro next successor
    cases successor
  | @jump plans pc s line aim moves there =>
    refine ⟨_, hasChart_jump ⟨s, moves _, ?_⟩⟩
    intro next successor
    cases List.mem_singleton.1 successor
    exact .inr ⟨aim, there, rfl⟩
  | @jumpIf plans pc s s' line op aim conditional moves there =>
    refine ⟨_, hasChart_jump ⟨s', moves _, ?_⟩⟩
    intro next successor
    rcases conditional with rfl | rfl
    all_goals
      rcases List.mem_cons.1 successor with rfl | successor
      · exact .inr ⟨aim, there, rfl⟩
      · cases List.mem_singleton.1 successor
        exact .inl ⟨rfl, rfl⟩
  | @seq plans _ _ _ _ _ _ _ _ rises _ ih ih' =>
    obtain ⟨chart, has⟩ := ih aims
    obtain ⟨chart', has'⟩ := ih' aims
    obtain ⟨points, enters, charted⟩ := has.seq plans aims rises has' fun aim s' there => .inr ⟨there, rfl⟩
    exact ⟨chart ++ chart', points, enters, charted⟩
  | @mark plans pc rise s mid aim first second stop _ rises _ ih ih' =>
    obtain ⟨chart, has⟩ := ih (Function.update aims aim (pc + first.size))
    obtain ⟨chart', has'⟩ := ih' (Function.update aims aim (pc + first.size))
    obtain ⟨points, enters, charted⟩ := has.seq plans aims rises has' (by
      intro a s' there
      by_cases here : a = aim
      · subst here
        rw [Function.update_self] at there ⊢
        exact .inl ⟨rfl, (Option.some.inj there).symm⟩
      · rw [Function.update_of_ne here] at there ⊢
        exact .inr ⟨there, rfl⟩)
    exact ⟨chart ++ chart', points, enters, charted⟩
  | unentered _ ih =>
    obtain ⟨chart, points, enters, charted⟩ := ih aims
    refine ⟨chart, ?_, ?_, charted⟩
    · rw [points, Piece.points, Piece.points, List.append_nil]
    · exact enters.imp_right fun impossible => by cases impossible.2
  | unreached _ ih =>
    obtain ⟨chart, points, enters, charted⟩ := ih aims
    have entered : Marks chart _ _ := enters.resolve_right fun impossible => by
      cases impossible.2
    refine ⟨chart, points, .inl entered, ?_⟩
    apply charted.mono
    rintro pc' s' (⟨-, impossible⟩ | out)
    · cases impossible
    · exact .inr out

/-! ### Numbers of operands -/

/-- The instruction finds its operands among so many and leaves so many. -/
def DepthRule (_ : Nat) (i : Directive) (depth depth' : Nat) : Prop :=
  i.takes ≤ depth ∧ depth' = depth - i.takes + i.leaves

namespace Typed

variable {depths : Aim → Option Nat} {depth : Nat} {stop : Option Nat}

theorem carries (typed : Typed depths depth q stop) (pc : Nat) :
  Carries id DepthRule depths pc depth q stop
  := by
  induction typed generalizing pc with
  | empty => exact .empty
  | one noJump noReturn enough => exact .one noJump noReturn ⟨enough, rfl⟩
  | ret => exact .ret ⟨Nat.le_refl _, rfl⟩
  | jump there => exact .jump (fun _ => ⟨Nat.zero_le _, rfl⟩) there
  | jumpIf conditional there =>
    refine .jumpIf conditional (fun _ => ?_) there
    rcases conditional with rfl | rfl
    all_goals exact ⟨Nat.le_add_left _ _, rfl⟩
  | seq _ _ ih ih' => exact .seq (ih pc) rfl (ih' _)
  | mark _ _ ih ih' => exact .mark (ih pc) rfl (ih' _)
  | unentered _ ih => exact .unentered (ih pc)
  | unreached _ ih => exact .unreached (ih pc)

/-- A piece is entered at its first instruction, unless it has none. -/
theorem enters (typed : Typed depths depth q stop) (aims : Aim → Nat) (pc : Nat) :
  Lands (q.points aims pc depth) pc depth ∨ (q.size = 0 ∧ stop = some depth)
  := by
  obtain ⟨chart, points, enters, charted⟩ := (typed.carries pc).exists_chart aims
  apply enters.imp_left
  rintro ⟨point, listed, here⟩
  exact ⟨point, points ▸ List.mem_map_of_mem listed, here, charted.height point depth listed⟩

/-- The instructions after a piece can be entered from its end. -/
theorem enters_or_exits (typed : Typed depths depth q stop) (aims aims' : Aim → Nat)
    (depths' : Aim → Option Nat) (pc : Nat) :
  Lands (q.points aims pc depth) pc depth ∨ Exits depths' aims' (pc + q.size) stop pc depth
  := by
  apply (typed.enters aims pc).imp_right
  rintro ⟨none, same⟩
  exact .inl ⟨by omega, same⟩

/-- Control flows through a typed piece as planned. -/
theorem flows (typed : Typed depths depth q stop) (aims : Aim → Nat) (pc : Nat) :
  Flows (q.points aims pc depth) (Exits depths aims (pc + q.size) stop)
  := by
  obtain ⟨chart, points, -, charted⟩ := (typed.carries pc).exists_chart aims
  change chart.map Prod.fst = q.points aims pc depth at points
  rw [← points]
  rintro _ listed
  obtain ⟨⟨point, depth'⟩, charts, rfl⟩ := List.mem_map.1 listed
  have high := charted.height _ _ charts
  obtain ⟨after, ⟨enough, rfl⟩, awaits⟩ := charted.follows _ _ charts
  dsimp only [id] at high enough awaits ⊢
  rw [← high] at enough awaits
  refine ⟨enough, ?_⟩
  intro next successor
  rw [point.depth_of_successor successor]
  apply (awaits next successor).imp_left
  rintro ⟨point', charts', here⟩
  exact ⟨point', List.mem_map_of_mem charts', here, charted.height _ _ charts'⟩

end Typed

end Piece

end Bytecode
