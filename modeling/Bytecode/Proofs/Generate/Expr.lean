import Mathlib
import Bytecode.Proofs.Generate.Emission

/-!
# The code that is generated for expressions

`Gen.expr` appends the code of `Expr.piece`, and the actions that it is made of that of the
corresponding pieces.
-/

namespace Bytecode

variable {d d' : Draft} {scope : Scope} {site : Site}

theorem Gen.getBody_eq_ok {b : Body} (run : getBody d = .ok b d') :
  b = d.body ∧ d' = d
  := by
  cases run
  exact ⟨rfl, rfl⟩

theorem Gen.ofExcept_eq_ok {α : Type} {x : Except CompileError α} {a : α}
    (run : ofExcept x d = .ok a d') :
  x = .ok a ∧ d' = d
  := by
  cases x with
  | ok a' =>
    cases run
    exact ⟨rfl, rfl⟩
  | error e => cases run

/-! ### Actions that append a piece -/

/-- Where it succeeds at the site, the action appends the code of the piece. -/
def Writes (labels : Aim → Label) (site : Site) (q : Piece) (action : Gen Unit) : Prop :=
  ∀ ⦃d d' : Draft⦄, d.IsAt site → action d = .ok () d' → Emits labels q d d'

/-- An action that changes nothing where it succeeds. -/
def Gen.Idle {α : Type} (check : Gen α) : Prop :=
  ∀ ⦃a : α⦄ ⦃d d' : Draft⦄, check d = .ok a d' → d' = d

section Writes

variable {labels : Aim → Label} {site : Site} {position : Position} {i : Directive}
  {p q : Piece} {x y : Gen Unit} {rise : Nat}

namespace Writes

theorem seq (first : Writes labels site p x) (second : Writes labels site q y) :
  Writes labels site (p.seq rise q) (do x; y)
  := by
  intro d d' here run
  obtain ⟨_, d₁, run₁, rest₁⟩ := bind_eq_ok.1 run
  have emitted := first here run₁
  exact emitted.seq (second (emitted.isAt here) rest₁)

theorem empty :
  Writes labels site .empty (pure ())
  := by
  intro d d' here run
  cases run
  exact .refl labels here.sound

theorem assoc {z : Gen Unit} (code : Writes labels site q (do (do x; y); z)) :
  Writes labels site q (do x; y; z)
  := by
  rwa [bind_assoc] at code

/-- What is checked before makes no difference. -/
theorem behind {check : Gen Unit} (idle : check.Idle) (code : Writes labels site q x) :
  Writes labels site q (do check; x)
  := by
  intro d d' here run
  obtain ⟨_, d₁, run₁, rest₁⟩ := bind_eq_ok.1 run
  obtain rfl := idle run₁
  exact code here rest₁

theorem checked {check : Gen Unit} (code : Writes labels site q x) (idle : check.Idle) :
  Writes labels site q (do x; check)
  := by
  intro d d' here run
  obtain ⟨_, d₁, run₁, rest₁⟩ := bind_eq_ok.1 run
  obtain rfl := idle rest₁
  exact code here run₁

/-- An instruction without an operand. -/
theorem none (shapeless : i.op.shape? = .none) (none : i.operand = .none)
    (frameless : i.op.isFramed = false) :
  Writes labels site (site.one position i) (Gen.emit position i.op [])
  := fun _ _ here run => emits_none here run shapeless none (.inl frameless)

/-- An instruction with a number. -/
theorem number {value : Int} (shaped : i.op.shape?.isSome) (plain : i.op.isJump = false)
    (number : i.operand = .number value) (frameless : i.op.isFramed = false) :
  Writes labels site (site.one position i) (Gen.emit position i.op [value])
  := fun _ _ here run => emits_number here run shaped plain number (.inl frameless)

/-- A literal that is kept in the pool. -/
theorem literal {c : Constant} {op : Op} (shaped : op.shape?.isSome) (plain : op.isJump = false)
    (frameless : op.isFramed = false) :
  Writes labels site (site.one position { op, operand := .constant c }) (do
    let index ← Gen.addConstant c position
    Gen.emit position op [(index : Int)])
  := fun _ _ here run => emits_literal here shaped plain frameless run

/-- An instruction with the offset of a slot, which is the one planned. -/
theorem slot {slot : UInt16} (shaped : i.op.shape?.isSome) (plain : i.op.isJump = false)
    (number : i.operand = .number (Frame.slotOffset site.params slot.toNat)) :
  Writes labels site (site.one position i) (do
    let offset ← Gen.ofExcept ((← Gen.getBody).localOffset slot position)
    Gen.emit position i.op [offset])
  := by
  intro d d' here run
  obtain ⟨b, d₁, run₁, rest₁⟩ := bind_eq_ok.1 run
  obtain ⟨rfl, rfl⟩ := Gen.getBody_eq_ok run₁
  obtain ⟨offset, d₂, run₂, rest₂⟩ := bind_eq_ok.1 rest₁
  obtain ⟨found, rfl⟩ := Gen.ofExcept_eq_ok run₂
  obtain ⟨-, rfl⟩ := id here
  unfold Body.localOffset at found
  cases inside : d₂.body.function with
  | none =>
    rw [inside] at found
    cases found
  | some f =>
    rw [inside] at found
    cases found
    apply emits_number here rest₂ shaped plain _ (.inr (by simp [inside]))
    rw [number]
    simp [Draft.site, inside]

end Writes

theorem writes_int {value : Int64} :
  Writes labels site (site.one position (.int value)) (Gen.emitInt position value)
  := by
  unfold Gen.emitInt Directive.int
  dsimp only
  split_ifs
  · exact .number rfl rfl rfl rfl
  · exact .number rfl rfl rfl rfl
  · exact .literal rfl rfl rfl

theorem writes_double {value : Double} :
  Writes labels site (site.one position (.double value)) (Gen.emitDouble position value)
  := by
  unfold Gen.emitDouble Directive.double
  split_ifs
  · exact .none rfl rfl rfl
  · exact .none rfl rfl rfl
  · exact .literal rfl rfl rfl

theorem writes_default {ty : Ty} :
  Writes labels site (site.one position (.default ty)) (Gen.emitDefault position ty)
  := by
  cases ty with
  | double | null | «class» index | array element => exact .none rfl rfl rfl
  | string => exact .literal rfl rfl rfl
  | _ =>
    change Writes _ _ (site.one _ (.bool false)) (Gen.emit _ .pushInt1Byte [0])
    exact .number rfl rfl rfl rfl

theorem writes_pushVariable {place : Variable} {ty : Ty} :
  Writes labels site (site.one position (.load site.params ty place))
    (Gen.pushVariable position place ty)
  := by
  cases place with
  | «local» slot => exact .slot rfl rfl rfl
  | global index => exact .number rfl rfl rfl rfl

theorem writes_popVariable {place : Variable} {ty : Ty} :
  Writes labels site (site.one position (.store site.params ty place))
    (Gen.popVariable position place ty)
  := by
  cases place with
  | «local» slot => exact .slot rfl rfl rfl
  | global index => exact .number rfl rfl rfl rfl

end Writes

/-! ### Checks write nothing -/

section Checks

variable {scope : Scope} {position : Position} {index : UInt16}

namespace Gen

theorem idle_pure {α : Type} (a : α) :
  (pure a : Gen α).Idle
  := by
  intro _ d d' run
  cases run
  rfl

theorem idle_guard {c : Prop} [Decidable c] {defect : Defect} :
  (if c then pure () else fail defect position : Gen Unit).Idle
  := by
  intro _ d d' run
  split at run
  all_goals cases run
  rfl

theorem idle_lookupClass :
  (lookupClass scope index position).Idle
  := by
  unfold lookupClass
  split
  · exact idle_pure _
  · exact fun _ _ _ failed => by cases failed

/-- A check of a member of an object writes nothing. -/
theorem idle_checkMember {object : Ty} {check : Class → Gen Unit} (idle : ∀ c, (check c).Idle) :
  (match object.classIndex? with
    | none => pure ()
    | some classIndex => do
      let c ← lookupClass scope classIndex position
      check c : Gen Unit).Idle
  := by
  split
  · exact idle_pure ()
  · intro _ d d' run
    obtain ⟨c, d₁, run₁, rest₁⟩ := bind_eq_ok.1 run
    obtain rfl := idle_lookupClass run₁
    exact idle c rest₁

theorem idle_checkField {object : Ty} :
  (checkField scope object index position).Idle
  := idle_checkMember fun _ => idle_guard

theorem idle_checkMethod {object : Ty} :
  (checkMethod scope object index position).Idle
  := idle_checkMember fun _ => idle_guard

/-- A class that was looked up for its existence alone. -/
theorem idle_discard_lookupClass :
  (discard (lookupClass scope index position) : Gen Unit).Idle
  := by
  intro _ d d' run
  simp only [discard, Functor.discard, Functor.mapConst, Function.comp] at run
  unfold EStateM.map at run
  cases looked : lookupClass scope index position d with
  | ok c d₁ =>
    rw [looked] at run
    cases run
    exact idle_lookupClass looked
  | error e d₁ =>
    rw [looked] at run
    cases run

end Gen

/-- Only variables, elements and fields can be assigned to. -/
def Expr.isTarget : Expr → Bool
  | .var _ _ | .index _ _ _ | .field _ _ _ => true
  | _ => false

theorem Writes.assigned {labels : Aim → Label} {site : Site} {q : Piece} {x : Gen Unit}
    {target : Expr} (code : target.isTarget → Writes labels site q x) :
  Writes labels site q (do Gen.checkTarget target position; x)
  := by
  intro d d' here run
  cases target with
  | var _ _ | index _ _ _ | field _ _ _ => exact code rfl here run
  | _ => cases run

end Checks

/-! ### Expressions -/

/-- An instruction without an operand behind another piece. -/
theorem Emission.seq_none {labels : Aim → Label} {q : Piece} {i : Directive} {site : Site}
    {position : Position} {fresh rise : Nat} {set : List Nat} {d d₁ d₂ : Draft}
    (first : Emission labels q fresh set d d₁) (here : d.IsAt site)
    (run : Gen.emit position i.op [] d₁ = .ok () d₂) (shapeless : i.op.shape? = none)
    (none : i.operand = .none) (framed : i.op.isFramed = false ∨ d.body.function ≠ Option.none) :
  Emission labels (q.seq rise (site.one position i)) fresh (set ++ []) d d₂
  := by
  rw [← first.function] at framed
  exact first.seq (emits_none (first.isAt here) run shapeless none framed)

theorem Gen.shape?_binaryOp (op : BinaryOp) (lhs rhs : Ty) :
  (Gen.binaryOp op lhs rhs).shape? = none
  := Gen.binaryOp_cases op lhs rhs (fun op' => op'.shape? = none) (fun _ => ⟨rfl, rfl⟩)
    (fun _ => ⟨rfl, rfl, rfl⟩) ⟨rfl, rfl, rfl⟩ (fun _ => rfl)

theorem Gen.isFramed_binaryOp (op : BinaryOp) (lhs rhs : Ty) :
  (Gen.binaryOp op lhs rhs).isFramed = false
  := Gen.binaryOp_cases op lhs rhs (fun op' => op'.isFramed = false) (fun _ => ⟨rfl, rfl⟩)
    (fun _ => ⟨rfl, rfl, rfl⟩) ⟨rfl, rfl, rfl⟩ (fun _ => rfl)

theorem Gen.shape?_unaryOp (op : UnaryOp) (operand : Ty) :
  (Gen.unaryOp op operand).shape? = none ∧ (Gen.unaryOp op operand).isFramed = false
  := by
  cases op with
  | minus =>
    dsimp only [Gen.unaryOp]
    split
    all_goals exact ⟨rfl, rfl⟩
  | not => exact ⟨rfl, rfl⟩

/-- The second operand is jumped over to a label that is placed behind it. -/
theorem emits_shortCut {labels : Aim → Label} {position : Position} {skip : Op} {lhs rhs : Expr}
    (jump : skip.isJump)
    (left : ∀ labels, Writes labels site (lhs.piece site) (Gen.expr scope lhs))
    (right : ∀ labels, Writes labels site (rhs.piece site) (Gen.expr scope rhs)) :
  Writes labels site
    (.mark .done
      (((((lhs.piece site).seq 1 (site.one position { op := .duplicate })).seq 2
        (site.jump position skip .done)).seq 1 (site.one position { op := .pop })).seq 0
        (rhs.piece site)) 1 .empty) (do
      let done ← Gen.newLabel
      Gen.expr scope lhs
      Gen.emit position .duplicate []
      Gen.emitJump position skip done
      Gen.emit position .pop []
      Gen.expr scope rhs
      Gen.setLabel done)
  := by
  intro d d' here run
  obtain ⟨done, d₁, run₁, rest₁⟩ := bind_eq_ok.1 run
  obtain ⟨_, d₂, run₂, rest₂⟩ := bind_eq_ok.1 rest₁
  obtain ⟨_, d₃, run₃, rest₃⟩ := bind_eq_ok.1 rest₂
  obtain ⟨_, d₄, run₄, rest₄⟩ := bind_eq_ok.1 rest₃
  obtain ⟨_, d₅, run₅, rest₅⟩ := bind_eq_ok.1 rest₄
  obtain ⟨_, d₆, run₆, rest₆⟩ := bind_eq_ok.1 rest₅
  obtain ⟨rfl, -⟩ := Gen.newLabel_eq_ok run₁
  let labels' := Function.update labels .done ⟨d.labels.size.toUInt16⟩
  have made := emission_newLabel labels' here.sound run₁
  have here₁ := made.isAt here
  have doubled : Emits labels' (.seq _ 1 (site.one position { op := .duplicate })) d₁ d₃ :=
    (left labels' here₁ run₂).seq_none here₁ run₃ rfl rfl (.inl rfl)
  have fresh := Draft.pending_newLabel run₁
  have skipped : Emission labels' (.seq _ 2 (site.jump position skip .done)) _ _ d₁ d₄ :=
    doubled.seq (emission_jump (doubled.isAt here₁) jump (Function.update_self ..)
      (doubled.made fresh.made) run₄)
  have popped : Emission labels' (.seq _ 1 (site.one position { op := .pop })) _ _ d₁ d₅ :=
    skipped.seq_none here₁ run₅ rfl rfl (.inl rfl)
  have inner : Emission labels' (.seq _ 0 (rhs.piece site)) _ _ d₁ d₆ :=
    popped.seq (right labels' (popped.isAt here₁) run₆)
  have pending := inner.pending fresh (by simp)
  have placed := emission_setLabel labels' inner.sound pending rest₆
  have whole : Emission labels (.mark .done _ 1 .empty) _ _ d d' :=
    (made.after inner).mark pending rest₆ (.refl labels' placed.sound)
  apply (whole.forget (by simp)).weaken
  have positive := skip.size_pos
  simp only [Piece.jumpSize, Site.jump, Site.one]
  omega

section Appended

variable (scope : Scope) (site : Site)

mutual

/-- The code of an expression is appended. -/
theorem emits_expr (labels : Aim → Label) :
  (e : Expr) → Writes labels site (e.piece site) (Gen.expr scope e)
  | .boolean _ _ => .number rfl rfl rfl rfl
  | .int _ _ => writes_int
  | .double _ _ => writes_double
  | .string _ _ => .literal rfl rfl rfl
  | .null _ => .none rfl rfl rfl
  | .var _ _ => writes_pushVariable
  | .function _ _ => .behind Gen.idle_guard (.number rfl rfl rfl rfl)
  | .assign m target value => .assigned fun isTarget => .assoc <|
      ((emits_expr labels value).seq (.none rfl rfl rfl)).seq
        (emits_store labels m.position target isTarget)
  | .binary m op lhs rhs => by
      rw [Gen.expr, Expr.piece]
      cases short : Gen.shortCut? op with
      | none =>
        exact .assoc <| ((emits_expr labels lhs).seq (emits_expr labels rhs)).seq
          (.none (Gen.shape?_binaryOp op _ _) rfl (Gen.isFramed_binaryOp op _ _))
      | some skip =>
        have jump : skip.isJump := by
          rcases Gen.shortCut?_eq_some short with rfl | rfl
          all_goals rfl
        exact emits_shortCut jump (emits_expr · lhs) (emits_expr · rhs)
  | .unary _ op operand => (emits_expr labels operand).seq
      (.none (Gen.shape?_unaryOp op _).1 rfl (Gen.shape?_unaryOp op _).2)
  | .call _ callee args => by
      have called := emits_expr labels callee
      cases callee with
      | method _ object i =>
        exact .assoc <| .assoc <| .assoc <|
          ((((emits_exprs labels args).checked Gen.idle_checkMethod).seq
            (emits_expr labels object)).seq (.number rfl rfl rfl rfl)).seq (.none rfl rfl rfl)
      | _ => exact .assoc <| ((emits_exprs labels args).seq called).seq (.none rfl rfl rfl)
  | .method _ _ _ => fun _ _ _ run => by cases run
  | .index _ array i => .assoc <|
      ((emits_expr labels array).seq (emits_expr labels i)).seq (.none rfl rfl rfl)
  | .field _ object _ =>
      .behind Gen.idle_checkField ((emits_expr labels object).seq (.number rfl rfl rfl rfl))
  | .new _ _ => .behind Gen.idle_discard_lookupClass (.number rfl rfl rfl rfl)
  | .newArray _ operand | .convert _ _ operand | .arrayLength _ operand
  | .stringLength _ operand => (emits_expr labels operand).seq (.none rfl rfl rfl)
  | .arrayLiteral _ items => (emits_exprs labels items).seq (.number rfl rfl rfl rfl)
  | .downCast _ _ operand | .instanceOf _ _ operand =>
      .behind Gen.idle_discard_lookupClass
        ((emits_expr labels operand).seq (.number rfl rfl rfl rfl))

theorem emits_exprs (labels : Aim → Label) :
  (es : List Expr) → Writes labels site (Expr.pieces site es) (Gen.exprs scope es)
  | [] => .empty
  | e :: rest => (emits_expr labels e).seq (emits_exprs labels rest)

/-- The code that stores into a target is appended. -/
theorem emits_store (labels : Aim → Label) (position : Position) (target : Expr)
    (isTarget : target.isTarget) :
  Writes labels site (target.storePiece site position) (Gen.store scope position target)
  := by
  cases target with
  | var m place => exact writes_popVariable
  | index m array i =>
    exact .assoc <| ((emits_expr labels array).seq (emits_expr labels i)).seq (.none rfl rfl rfl)
  | field m object i =>
    exact .behind Gen.idle_checkField
      ((emits_expr labels object).seq (.number rfl rfl rfl rfl))
  | _ => cases isTarget

end

end Appended

theorem emits_effect (labels : Aim → Label) {e : Expr} :
  Writes labels site (e.effectPiece site) (Gen.effect scope e)
  := by
  cases e with
  | assign m target value =>
    exact .assigned fun isTarget =>
      (emits_expr scope site labels value).seq (emits_store scope site labels _ target isTarget)
  | _ => exact (emits_expr scope site labels _).seq (.none rfl rfl rfl)

theorem emits_optionalEffect (labels : Aim → Label) {e : Option Expr} :
  Writes labels site (optionalEffectPiece site e) (Gen.optionalEffect scope e)
  := by
  cases e with
  | none => exact .empty
  | some e => exact emits_effect labels

end Bytecode
