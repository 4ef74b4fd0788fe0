import Mathlib
import Bytecode.Proofs.Generate.Expr

/-!
# The code that is generated for statements

`Gen.stmt` appends the code of `Stmt.piece`. Labels are made before the jumps that name them and
placed once, inside the construct that makes them; only `break` and `continue` name labels of
a construct around them.
-/

namespace Bytecode

variable {d d' d₁ : Draft} {labels : Aim → Label} {site : Site} {inLoop : Bool} {q : Piece}
  {action : Gen Unit} {scope : Scope} {fresh : Nat} {set : List Nat} {position : Position}

/-- The labels for `break` and `continue` are those of the innermost loop, and have been made. -/
structure Draft.LoopLabels (labels : Aim → Label) (inLoop : Bool) (d : Draft) : Prop where
  innermost : d.body.innermostLoop?
    = if inLoop then some (labels .break_, labels .continue_) else none
  made : inLoop → d.Made (labels .break_) ∧ d.Made (labels .continue_)

/-- The draft goes on in another one, inside of more blocks. -/
structure Draft.Enters (more : List BlockKind) (d d₁ : Draft) : Prop where
  blocks : d₁.body.blocks = more ++ d.body.blocks
  labels_le : d.labels.size ≤ d₁.labels.size

/-- Plain blocks are no loops. -/
theorem Draft.LoopLabels.of_enters {more : List BlockKind} (loop : d.LoopLabels labels inLoop)
    (enters : d.Enters more d₁) (plain : more = [] ∨ more = [.plain]) :
  d₁.LoopLabels labels inLoop
  where
  innermost := by
    rw [← loop.innermost, Body.innermostLoop?, enters.blocks]
    rcases plain with rfl | rfl
    all_goals rfl
  made within := (loop.made within).imp (Nat.lt_of_lt_of_le · enters.labels_le)
    (Nat.lt_of_lt_of_le · enters.labels_le)

theorem Emission.loopLabels {labels' : Aim → Label} (e : Emission labels' q fresh set d d₁)
    (loop : d.LoopLabels labels inLoop) :
  d₁.LoopLabels labels inLoop
  := by
  have enters : d.Enters [] d₁ := ⟨e.blocks, e.labels_le⟩
  exact loop.of_enters enters (.inl rfl)

/-- Labels of branches do not matter to loops. -/
theorem Draft.LoopLabels.update (loop : d.LoopLabels labels inLoop) (aim : Aim)
    (noBreak : aim ≠ .break_) (noContinue : aim ≠ .continue_) (label : Label) :
  d.LoopLabels (Function.update labels aim label) inLoop
  := by
  obtain ⟨innermost, made⟩ := loop
  constructor
  all_goals
    rw [Function.update_of_ne noBreak.symm, Function.update_of_ne noContinue.symm]
    assumption

/-- Where it succeeds at the site, with these labels of the innermost loop, the action appends the
code of the piece. -/
def WritesIn (labels : Aim → Label) (site : Site) (inLoop : Bool) (q : Piece)
    (action : Gen Unit) : Prop :=
  ∀ ⦃d d' : Draft⦄, d.IsAt site → d.LoopLabels labels inLoop → action d = .ok () d' →
    Emits labels q d d'

theorem Writes.within (code : Writes labels site q action) :
  WritesIn labels site inLoop q action
  := fun _ _ here _ run => code here run

theorem WritesIn.seq {p : Piece} {rise : Nat} {before : Gen Unit}
    (first : WritesIn labels site inLoop p before) (second : WritesIn labels site inLoop q action) :
  WritesIn labels site inLoop (p.seq rise q) (do before; action)
  := by
  intro d d' here loop run
  obtain ⟨_, d₁, run₁, rest₁⟩ := bind_eq_ok.1 run
  have emitted := first here loop run₁
  exact emitted.seq (second (emitted.isAt here) (emitted.loopLabels loop) rest₁)

theorem Draft.Sound.of_buffer (sound : d.Sound) (same : d'.body.buffer = d.body.buffer) :
  d'.Sound
  := by
  obtain ⟨tiles, placed⟩ := sound
  unfold Draft.lines Draft.code Draft.labels at *
  rw [← same] at tiles placed
  exact ⟨tiles, placed⟩

/-- What is generated under a line is generated at the site with that line. -/
theorem WritesIn.atLine {line : UInt32} (inner : WritesIn labels (site.enter line) inLoop q action) :
  WritesIn labels site inLoop q (Gen.atLine line action)
  := by
  intro d d' here loop run
  obtain ⟨b, d₁, run₁, rest₁⟩ := bind_eq_ok.1 run
  obtain ⟨rfl, rfl⟩ := Gen.getBody_eq_ok run₁
  obtain ⟨_, d₂, run₂, rest₂⟩ := bind_eq_ok.1 rest₁
  cases run₂
  obtain ⟨_, d₃, run₃, rest₃⟩ := bind_eq_ok.1 rest₂
  cases rest₃
  have buffer : (d₁.body.enterLine line).buffer = d₁.body.buffer := by
    unfold Body.enterLine
    split
    all_goals rfl
  have blocks : (d₁.body.enterLine line).blocks = d₁.body.blocks := by
    unfold Body.enterLine
    split
    all_goals rfl
  have function : (d₁.body.enterLine line).function = d₁.body.function := by
    unfold Body.enterLine
    split
    all_goals rfl
  have entered : Draft.IsAt (site.enter line) ⟨d₁.pool, d₁.body.enterLine line⟩ := by
    obtain ⟨sound, rfl⟩ := here
    refine ⟨sound.of_buffer buffer, ?_⟩
    unfold Draft.site Site.enter Body.enterLine
    dsimp only
    split
    all_goals rfl
  have enters : d₁.Enters [] ⟨d₁.pool, d₁.body.enterLine line⟩ :=
    ⟨blocks, by rw [Draft.labels, ← buffer]; rfl⟩
  have emitted := inner entered (loop.of_enters enters (.inl rfl)) run₃
  refine emitted.reframe ?_ ?_ ?_ ?_ ?_
  · exact ⟨rfl, buffer.symm, function.symm⟩
  · exact ⟨rfl, rfl⟩
  · exact emitted.blocks.trans blocks
  · exact emitted.function.trans function
  · rfl

/-- Blocks do not matter to the code of what is in them, except for the loops that they are. -/
theorem emission_inBlock {kind : BlockKind} (here : d.IsAt site)
    (inner : ∀ {d₁ d₂ : Draft}, d₁.IsAt site → d.Enters [kind] d₁ →
      action d₁ = .ok () d₂ → Emission labels q fresh set d₁ d₂)
    (run : Gen.inBlock kind action d = .ok () d') :
  Emission labels q fresh set d d'
  := by
  obtain ⟨_, d₁, run₁, rest₁⟩ := bind_eq_ok.1 run
  cases run₁
  obtain ⟨_, d₂, run₂, rest₂⟩ := bind_eq_ok.1 rest₁
  cases rest₂
  have entered : Draft.IsAt site ⟨d.pool, d.body.enterBlock kind⟩ :=
    ⟨here.sound.of_buffer rfl, here.site_eq⟩
  have emitted := inner entered ⟨rfl, Nat.le_refl _⟩ run₂
  refine emitted.reframe ?_ ?_ ?_ ?_ ?_
  · exact ⟨rfl, rfl, rfl⟩
  · exact ⟨rfl, rfl⟩
  · change d₂.body.blocks.tail = d.body.blocks
    rw [emitted.blocks]
    rfl
  · exact emitted.function
  · exact emitted.line

/-- The code of a plain block is that of its statements. -/
theorem WritesIn.plain (inner : WritesIn labels site inLoop q action) :
  WritesIn labels site inLoop q (Gen.inBlock .plain action)
  := fun _ _ here loop run => emission_inBlock here
    (fun here enters run => inner here (loop.of_enters enters (.inr rfl)) run) run

theorem Gen.branchCondition_eq_ok {condition : Expr} {next : Label}
    (run : branchCondition scope condition d = .ok next d') :
  ∃ d₁ d₂, expr scope condition d = .ok () d₁ ∧ newLabel d₁ = .ok next d₂
    ∧ emitJump condition.position .jumpIfFalse next d₂ = .ok () d'
  := by
  simp only [branchCondition] at run
  split at run
  · obtain ⟨_, d₁, failed, -⟩ := bind_eq_ok.1 run
    cases failed
  · obtain ⟨_, d₁, run₁, rest₁⟩ := bind_eq_ok.1 run
    obtain ⟨label, d₂, run₂, rest₂⟩ := bind_eq_ok.1 rest₁
    obtain ⟨_, d₃, run₃, rest₃⟩ := bind_eq_ok.1 rest₂
    obtain ⟨rfl, rfl⟩ := pure_eq_ok.1 rest₃
    exact ⟨d₁, d₂, run₁, run₂, run₃⟩

/-- A branch whose condition has been tested goes on with its block and from there to the end,
or with the other branches. -/
theorem emission_branch {condition : Expr} {body others : Piece} {further : Gen Unit}
    {done : Label} (block : ∀ labels, WritesIn labels site inLoop body action)
    (rest : ∀ {labels : Aim → Label} {d d' : Draft}, labels .done = done → d.IsAt site →
      d.LoopLabels labels inLoop → d.Made done → further d = .ok () d' → Emits labels others d d')
    (aimed : labels .done = done) (here : d.IsAt site) (loop : d.LoopLabels labels inLoop)
    (made : d.Made done)
    (run : (do
      let next ← Gen.branchCondition scope condition
      Gen.inBlock .plain action
      Gen.emitJump condition.position .jump done
      Gen.setLabel next
      further) d = .ok () d') :
  Emission labels (branchPiece site condition body others)
    ((condition.piece site).jumpSize + 1 + body.jumpSize + others.jumpSize) [] d d'
  := by
  obtain ⟨next, d₃, run₃, rest₃⟩ := bind_eq_ok.1 run
  obtain ⟨_, d₄, run₄, rest₄⟩ := bind_eq_ok.1 rest₃
  obtain ⟨_, d₅, run₅, rest₅⟩ := bind_eq_ok.1 rest₄
  obtain ⟨_, d₆, run₆, rest₆⟩ := bind_eq_ok.1 rest₅
  obtain ⟨d₁, d₂, run₁, run₂, jumped⟩ := Gen.branchCondition_eq_ok run₃
  obtain ⟨rfl, -⟩ := Gen.newLabel_eq_ok run₂
  have fresh := Draft.pending_newLabel run₂
  let labels' := Function.update labels .next ⟨d₁.labels.size.toUInt16⟩
  have aimed' : labels' .done = done := by rw [← aimed]; exact Function.update_of_ne (by decide) ..
  have loop' : d.LoopLabels labels' inLoop := loop.update .next (by decide) (by decide) _
  have valued := emits_expr scope site labels' condition here run₁
  have named := emission_newLabel labels' valued.sound run₂
  have jumps : Emission labels' (site.jump condition.position .jumpIfFalse .next) 0 [] d₂ d₃ :=
    emission_jump (named.isAt (valued.isAt here)) rfl (Function.update_self ..) fresh.made jumped
  have tested : Emission labels' (.seq _ 1 (site.jump _ .jumpIfFalse .next)) _ _ d d₃ :=
    (valued.before named).seq jumps
  have inner : Emits labels' body d₃ d₄ :=
    (block labels').plain (tested.isAt here) (tested.loopLabels loop') run₄
  have leaves : Emission labels' (site.jump condition.position .jump .done) 0 [] d₄ d₅ :=
    emission_jump (inner.isAt (tested.isAt here)) rfl aimed' (inner.made (tested.made made)) run₅
  have first : Emission labels' (.seq (.seq _ 0 body) 0 (site.jump _ .jump .done)) _ _ d d₅ :=
    (tested.seq inner).seq leaves
  have pending := leaves.pending (inner.pending (jumps.pending fresh (by simp)) (by simp)) (by simp)
  have placed := emission_setLabel labels' first.sound pending run₆
  have whole : Emission labels (.mark .next _ 0 others) _ _ d d' :=
    first.mark pending run₆ (rest aimed' (placed.isAt (first.isAt here))
      (placed.loopLabels (first.loopLabels loop')) (placed.made (first.made made)) rest₆)
  exact whole.forget (by simpa using valued.labels_le)

/-- The condition of a loop, with the label to which control goes when it does not hold. -/
theorem emission_loopCondition {condition : Option Expr} (here : d.IsAt site)
    (made : d.Made (labels .break_))
    (run : Gen.loopCondition scope (labels .break_) condition d = .ok () d') :
  Emits labels (loopConditionPiece site condition) d d'
  := by
  cases condition with
  | none =>
    cases run
    exact .refl labels here.sound
  | some condition =>
    have steps : (do
        Gen.expr scope condition
        Gen.emitJump condition.position .jumpIfFalse (labels .break_) : Gen Unit) d
        = .ok () d' := by
      simp only [Gen.loopCondition] at run
      split at run
      · obtain ⟨_, d₁, failed, -⟩ := bind_eq_ok.1 run
        cases failed
      · exact run
    obtain ⟨_, d₁, run₁, rest₁⟩ := bind_eq_ok.1 steps
    have tested := emits_expr scope site labels condition here run₁
    exact (tested.seq (emission_jump (tested.isAt here) rfl rfl (tested.made made) rest₁)).weaken
      (Nat.le_add_right _ _)

/-- A loop: the labels of its start, its end and the end of its body are made first. -/
theorem emits_loop {condition post : Option Expr} {body : Piece}
    (block : ∀ labels, WritesIn labels site true body action) :
  Writes labels site (loopPiece site position condition body post) (do
    let top ← Gen.newLabel
    let breakLabel ← Gen.newLabel
    let continueLabel ← Gen.newLabel
    Gen.setLabel top
    Gen.loopCondition scope breakLabel condition
    Gen.inBlock (.loop breakLabel continueLabel) action
    Gen.setLabel continueLabel
    Gen.optionalEffect scope post
    Gen.emitJump position .jump top
    Gen.setLabel breakLabel)
  := by
  intro d d' here run
  obtain ⟨top, d₁, run₁, rest₁⟩ := bind_eq_ok.1 run
  obtain ⟨breakLabel, d₂, run₂, rest₂⟩ := bind_eq_ok.1 rest₁
  obtain ⟨continueLabel, d₃, run₃, rest₃⟩ := bind_eq_ok.1 rest₂
  obtain ⟨_, d₄, run₄, rest₄⟩ := bind_eq_ok.1 rest₃
  obtain ⟨_, d₅, run₅, rest₅⟩ := bind_eq_ok.1 rest₄
  obtain ⟨_, d₆, run₆, rest₆⟩ := bind_eq_ok.1 rest₅
  obtain ⟨_, d₇, run₇, rest₇⟩ := bind_eq_ok.1 rest₆
  obtain ⟨_, d₈, run₈, rest₈⟩ := bind_eq_ok.1 rest₇
  obtain ⟨_, d₉, run₉, rest₉⟩ := bind_eq_ok.1 rest₈
  obtain ⟨rfl, made₁⟩ := Gen.newLabel_eq_ok run₁
  obtain ⟨rfl, made₂⟩ := Gen.newLabel_eq_ok run₂
  obtain ⟨rfl, made₃⟩ := Gen.newLabel_eq_ok run₃
  have count₁ : d₁.labels.size = d.labels.size + 1 := by
    rw [made₁]
    exact Array.size_push ..
  have count₂ : d₂.labels.size = d₁.labels.size + 1 := by
    rw [made₂]
    exact Array.size_push ..
  -- All three labels are made first; the marks are then closed from the inside out.
  let labels₁ := Function.update labels .top ⟨d.labels.size.toUInt16⟩
  let labels₂ := Function.update labels₁ .break_ ⟨d₁.labels.size.toUInt16⟩
  let labels₃ := Function.update labels₂ .continue_ ⟨d₂.labels.size.toUInt16⟩
  have aimedTop : labels₃ .top = ⟨d.labels.size.toUInt16⟩ := by
    simp [labels₃, labels₂, labels₁]
  have aimedBreak : labels₃ .break_ = ⟨d₁.labels.size.toUInt16⟩ := by simp [labels₃, labels₂]
  have aimedContinue : labels₃ .continue_ = ⟨d₂.labels.size.toUInt16⟩ := by simp [labels₃]
  have top := emission_newLabel labels₁ here.sound run₁
  have end_ := emission_newLabel labels₁ top.sound run₂
  have bodyEnd := emission_newLabel labels₁ end_.sound run₃
  have made : Emission labels₁ .empty 3 [] d d₃ := (top.before end_).before bodyEnd
  have pendingTop := bodyEnd.pending
    (end_.pending (Draft.pending_newLabel run₁) (by simp)) (by simp)
  have pendingEnd := bodyEnd.pending (Draft.pending_newLabel run₂) (by simp)
  have pendingBodyEnd := Draft.pending_newLabel run₃
  have begun := emission_setLabel labels₃ made.sound pendingTop run₄
  have here₄ := begun.isAt (made.isAt here)
  have tested : Emits labels₃ (loopConditionPiece site condition) d₄ d₅ :=
    emission_loopCondition here₄ (by rw [aimedBreak]; exact begun.made pendingEnd.made)
      (by rw [aimedBreak]; exact run₅)
  have looped : Emits labels₃ body d₅ d₆ := by
    apply emission_inBlock (tested.isAt here₄) _ run₆
    intro d₁' d₂' here' enters run'
    apply block labels₃ here' _ run'
    have old {label : Label} (made : d₃.Made label) : d₁'.Made label :=
      Nat.lt_of_lt_of_le (tested.made (begun.made made)) enters.labels_le
    constructor
    · rw [Body.innermostLoop?, enters.blocks, aimedBreak, aimedContinue]
      rfl
    · rw [aimedBreak, aimedContinue]
      exact fun _ => ⟨old pendingEnd.made, old pendingBodyEnd.made⟩
  have first : Emission labels₃ ((loopConditionPiece site condition).seq 0 body) _ _ d₄ d₆ :=
    tested.seq looped
  have pendingBodyEnd' := first.pending (begun.pending pendingBodyEnd (by simp; omega)) (by simp)
  have ended := emission_setLabel labels₃ first.sound pendingBodyEnd' run₇
  have here₇ := ended.isAt (first.isAt here₄)
  have after := emits_optionalEffect labels₃ here₇ run₈
  have second : Emission labels₃ ((optionalEffectPiece site post).seq 0
      (site.jump position .jump .top)) _ _ d₇ d₉ :=
    after.seq (emission_jump (after.isAt here₇) rfl aimedTop
      (after.made (ended.made (first.made (begun.made pendingTop.made)))) run₉)
  have inner : Emission labels₂ (.mark .continue_ _ 0 _) _ _ d₄ d₉ :=
    first.mark pendingBodyEnd' run₇ second
  have pendingEnd' := inner.pending (begun.pending pendingEnd (by simp; omega)) (by simp; omega)
  have left := emission_setLabel labels₂ inner.sound pendingEnd' rest₉
  have outer : Emission labels₁ (.mark .break_ _ 0 .empty) _ _ d₄ d' :=
    inner.mark pendingEnd' rest₉ (.refl labels₂ left.sound)
  have whole : Emission labels (.mark .top .empty 0 _) _ _ d d' :=
    made.mark pendingTop run₄ outer
  apply (whole.forget (by simp; omega)).weaken
  have jump : Op.jump.size = 3 := rfl
  simp only [Piece.jumpSize, loopPiece, Site.jump, jump]
  omega

theorem emits_return (labels : Aim → Label) {value : Option Expr} :
  Writes labels site (returnPiece site position value) (Gen.returnStmt scope position value)
  := by
  intro d d' here run
  obtain ⟨b, d₁, run₁, rest₁⟩ := bind_eq_ok.1 run
  obtain ⟨rfl, rfl⟩ := Gen.getBody_eq_ok run₁
  cases inside : d₁.body.function with
  | none =>
    rw [inside] at rest₁
    cases rest₁
  | some f =>
    have returns : site.returns = f.returnType := by
      rw [← here.site_eq]
      simp [Draft.site, inside]
    rw [inside] at rest₁
    cases value with
    | none =>
      obtain ⟨_, d₂, run₂, rest₂⟩ := bind_eq_ok.1 rest₁
      have pushed : Emits labels (site.one position (.default site.returns)) d₁ d₂ := by
        rw [returns]
        exact writes_default here run₂
      exact pushed.seq_none here rest₂ rfl rfl (.inr (by simp [inside]))
    | some value =>
      simp only at rest₁
      split at rest₁
      · obtain ⟨_, d₂, failed, -⟩ := bind_eq_ok.1 rest₁
        cases failed
      · obtain ⟨_, d₂, run₂, rest₂⟩ := bind_eq_ok.1 rest₁
        exact (emits_expr scope site labels value here run₂).seq_none here rest₂ rfl rfl
          (.inr (by simp [inside]))

/-- A jump to a label of the innermost loop. -/
theorem WritesIn.loopJump {defect : Defect} {choose : Label × Label → Label} {aim : Aim}
    (chosen : choose (labels .break_, labels .continue_) = labels aim)
    (either : aim = .break_ ∨ aim = .continue_) :
  WritesIn labels site inLoop (if inLoop then site.jump position .jump aim else .empty) (do
    let found ← Gen.enclosingLoop defect position
    Gen.emitJump position .jump (choose found))
  := by
  intro d d' here loop run
  obtain ⟨found, d₁, run₁, rest₁⟩ := bind_eq_ok.1 run
  obtain ⟨b, d₂, run₂, rest₂⟩ := bind_eq_ok.1 run₁
  obtain ⟨rfl, rfl⟩ := Gen.getBody_eq_ok run₂
  rw [loop.innermost] at rest₂
  cases inLoop with
  | false => cases rest₂
  | true =>
    cases rest₂
    obtain ⟨breaks, continues⟩ := loop.made rfl
    have made : d₁.Made (labels aim) := by
      rcases either with rfl | rfl
      · exact breaks
      · exact continues
    exact (emission_jump here rfl chosen.symm (chosen ▸ made) rest₁).weaken (Nat.zero_le _)

section Appended

variable (scope : Scope)

mutual

/-- The code of a statement is appended. -/
theorem emits_stmt (site : Site) (inLoop : Bool) (labels : Aim → Label) :
  (s : Stmt) → WritesIn labels site inLoop (s.piece site inLoop) (Gen.stmt scope s)
  | .expression _ _ => (emits_effect labels).within.atLine
  | .declaration _ _ _ none => Writes.empty.within.atLine
  | .declaration _ _ _ (some initial) =>
      ((emits_expr scope _ labels initial).seq writes_popVariable).within.atLine
  | .branch p condition thenBlock elifs elseBlock => by
      apply WritesIn.atLine
      intro d d' here loop run
      obtain ⟨done, d₁, run₁, rest₁⟩ := bind_eq_ok.1 run
      obtain ⟨rfl, -⟩ := Gen.newLabel_eq_ok run₁
      have fresh := Draft.pending_newLabel run₁
      let labels' := Function.update labels .done ⟨d.labels.size.toUInt16⟩
      have steps : ((do
          let next ← Gen.branchCondition scope condition
          Gen.inBlock .plain (Gen.stmts scope thenBlock)
          Gen.emitJump condition.position .jump ⟨d.labels.size.toUInt16⟩
          Gen.setLabel next
          Gen.elifBranches scope ⟨d.labels.size.toUInt16⟩ elifs
          Gen.elseBranch scope elseBlock) >>= fun _ => Gen.setLabel ⟨d.labels.size.toUInt16⟩) d₁
          = .ok () d' := by
        simpa only [bind_assoc] using rest₁
      obtain ⟨_, d₂, run₂, rest₂⟩ := bind_eq_ok.1 steps
      have made := emission_newLabel labels' here.sound run₁
      have branch : Emission labels' (branchPiece _ condition _ (.seq _ 0 _)) _ _ d₁ d₂ :=
        emission_branch (emits_stmts (site.enter p.line) inLoop · thenBlock) (fun {labels d d'} same here loop made run => by
          obtain ⟨_, d₃, run₃, rest₃⟩ := bind_eq_ok.1 run
          rw [← same] at run₃ made
          have further := emits_elifs _ _ labels elifs here loop made run₃
          exact further.seq (emits_else _ _ labels elseBlock (further.isAt here)
            (further.loopLabels loop) rest₃))
        (Function.update_self ..) (made.isAt here)
        (made.loopLabels (loop.update .done (by decide) (by decide) _)) fresh.made run₂
      have pending := branch.pending fresh (by simp)
      have placed := emission_setLabel labels' branch.sound pending rest₂
      have whole : Emission labels (.mark .done _ 0 .empty) _ _ d d' :=
        (made.after branch).mark pending rest₂ (.refl labels' placed.sound)
      apply (whole.forget (by simp)).weaken
      have jump : Op.jump.size = 3 := rfl
      simp only [Stmt.piece, branchPiece, Piece.jumpSize, Site.jump, jump]
      omega
  | .loop _ _ _ _ body =>
      ((emits_optionalEffect labels).seq (emits_loop (emits_stmts _ true · body))).within.atLine
  | .ret _ _ => (emits_return labels).within.atLine
  | .break_ _ | .continue_ _ => (WritesIn.loopJump rfl (by decide)).atLine
  | .block _ statements => (emits_stmts _ inLoop labels statements).plain.atLine

theorem emits_stmts (site : Site) (inLoop : Bool) (labels : Aim → Label) :
  (ss : List Stmt) →
    WritesIn labels site inLoop (Stmt.pieces site inLoop ss) (Gen.stmts scope ss)
  | [] => Writes.empty.within
  | s :: rest => (emits_stmt site inLoop labels s).seq (emits_stmts site inLoop labels rest)

/-- The code of the further branches is appended. -/
theorem emits_elifs (site : Site) (inLoop : Bool) (labels : Aim → Label) :
  (elifs : List Elif) → ∀ {d d' : Draft}, d.IsAt site → d.LoopLabels labels inLoop →
    d.Made (labels .done) → Gen.elifBranches scope (labels .done) elifs d = .ok () d' →
    Emits labels (Elif.pieces site inLoop elifs) d d'
  | [], _, _, here, _, _, run => Writes.empty here run
  | .mk condition body :: rest, _, _, here, loop, made, run => by
      have branch := emission_branch (emits_stmts site inLoop · body)
        (fun {labels d d'} same here loop made run => by
          rw [← same] at run made
          exact emits_elifs site inLoop labels rest here loop made run) rfl here loop made run
      apply branch.weaken
      have positive := Op.jump.size_pos
      simp only [Elif.pieces, branchPiece, Piece.jumpSize, Site.jump]
      omega

theorem emits_else (site : Site) (inLoop : Bool) (labels : Aim → Label) :
  (body : Option (List Stmt)) →
    WritesIn labels site inLoop (Stmt.elsePiece site inLoop body) (Gen.elseBranch scope body)
  | none => Writes.empty.within
  | some body => (emits_stmts site inLoop labels body).plain

end

end Appended

end Bytecode
