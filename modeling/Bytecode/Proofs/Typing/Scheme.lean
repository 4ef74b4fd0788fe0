import Mathlib
import Bytecode.Proofs.Generate.Chart
import Bytecode.Proofs.Typing.Plan

/-!
# The types of operands in compiled code

The code of an expression that obeys the rules leaves a value of the type of the expression, and the
code of a statement leaves nothing. So the code of a well-typed program has a chart whose descriptions
are the types of the operands, `Program.WellTyped.exists_chart`; `Program.Expects` says which types
there are before an instruction.
-/

namespace Bytecode

variable {p : Program} {exe : Executable} {site : Site} {callee : Expr} {pc : Nat}
  {current : Option Nat}

/-! ### Putting code together -/

section

variable {p : Program} {exe : Executable} {current : Option Nat} {plans : Aim → Option Plan}
  {pc : Nat} {plan plan' : Plan} {tys : List Ty} {ty ty' made : Ty} {site : Site}
  {position : Position} {i : Directive} {q r : Piece}

namespace Piece

/-- The piece carries the types of operands. -/
abbrev CarriesTypes (p : Program) (exe : Executable) (current : Option Nat)
    (plans : Aim → Option Plan) (pc : Nat) (plan : Plan) (q : Piece) (stop : Option Plan) : Prop :=
  Carries Plan.height (Moves p exe current) plans pc plan q stop

namespace CarriesTypes

/-- An instruction that puts a value on top. -/
theorem push (plain : i.Plain 0 1)
    (moves : Moves p exe current pc i (.plain tys) (.plain (tys ++ [ty]))) :
  CarriesTypes p exe current plans pc (.plain tys) (site.one position i) (some (.plain (tys ++ [ty])))
  := Carries.one plain.noJump plain.noReturn moves

/-- An instruction that makes a value of nothing. -/
theorem literal (plain : i.Plain 0 1) (makes : i.op.makes? = some made) (fits : exe.Fits made ty) :
  CarriesTypes p exe current plans pc (.plain tys) (site.one position i) (some (.plain (tys ++ [ty])))
  := by
  apply push plain
  have moves : Moves p exe current pc i (.plain (tys ++ [])) (.plain (tys ++ [ty])) :=
    .make makes plain.takes_eq.symm fits
  rwa [List.append_nil] at moves

section

variable
  (carries : CarriesTypes p exe current plans pc (.plain tys) q (some (.plain (tys ++ [ty]))))
include carries

/-- An instruction behind code that leaves one operand more. -/
theorem followed {takes leaves : Nat} (plain : i.Plain takes leaves)
    (moves : Moves p exe current (pc + q.size) i (.plain (tys ++ [ty])) plan) :
  CarriesTypes p exe current plans pc (.plain tys) (q.seq 1 (site.one position i)) (some plan)
  := .seq carries (by simp [Plan.height]) (.one plain.noJump plain.noReturn moves)

theorem unary (plain : i.Plain 1 1) (makes : i.op.makes? = some made) (fits : exe.Fits made ty') :
  CarriesTypes p exe current plans pc (.plain tys) (q.seq 1 (site.one position i))
    (some (.plain (tys ++ [ty'])))
  := carries.followed plain (.make makes plain.takes_eq.symm fits)

theorem duplicate (fits : exe.Fits ty ty') :
  CarriesTypes p exe current plans pc (.plain tys)
    (q.seq 1 (site.one position { op := .duplicate })) (some (.plain (tys ++ [ty'] ++ [ty])))
  := by
  rw [List.append_assoc]
  exact carries.followed ⟨rfl, nofun, rfl, rfl⟩ (.duplicate rfl fits)

end

/-- An instruction behind two pieces that each leave one operand more. -/
theorem binary
    (first : CarriesTypes p exe current plans pc (.plain tys) q (some (.plain (tys ++ [ty]))))
    (second : CarriesTypes p exe current plans (pc + q.size) (.plain (tys ++ [ty])) r
      (some (.plain (tys ++ [ty] ++ [ty']))))
    {takes leaves : Nat} (plain : i.Plain takes leaves)
    (moves : Moves p exe current (pc + (q.seq 1 r).size) i (.plain (tys ++ [ty, ty'])) plan) :
  CarriesTypes p exe current plans pc (.plain tys) ((q.seq 1 r).seq 2 (site.one position i))
    (some plan)
  := by
  rw [List.append_assoc] at second
  have both : CarriesTypes p exe current plans pc (.plain tys) (q.seq 1 r)
      (some (.plain (tys ++ [ty, ty']))) := .seq first (by simp [Plan.height]) second
  exact .seq both (by simp [Plan.height]) (.one plain.noJump plain.noReturn moves)

/-- The second operand of an operator may be left out. -/
theorem shortCut {skip : Op} (conditional : skip = .jumpIfTrue ∨ skip = .jumpIfFalse)
    (first : ∀ plans, CarriesTypes p exe current plans pc (.plain tys) q
      (some (.plain (tys ++ [ty]))))
    (second : ∀ plans, CarriesTypes p exe current plans
      (pc + q.size + Op.duplicate.size + skip.size + Op.pop.size) (.plain tys) r
      (some (.plain (tys ++ [ty])))) :
  CarriesTypes p exe current plans pc (.plain tys)
    (.mark .done
      ((((q.seq 1 (site.one position { op := .duplicate })).seq 2
        (site.jump position skip .done)).seq 1 (site.one position { op := .pop })).seq 0 r) 1 .empty)
    (some (.plain (tys ++ [ty])))
  := by
  have skips : CarriesTypes p exe current (Function.update plans .done (some (.plain (tys ++ [ty]))))
      pc (.plain tys) ((q.seq 1 (site.one position { op := .duplicate })).seq 2
        (site.jump position skip .done)) (some (.plain (tys ++ [ty]))) := by
    apply Carries.seq ((first _).duplicate (.refl ty))
    · simp [Plan.height]
    · refine Carries.jumpIf conditional ?_ (Function.update_self ..)
      exact fun place => .drop (.inr conditional)
  apply Carries.mark _ _ .empty
  · apply Carries.seq (skips.followed ⟨rfl, by decide, rfl, rfl⟩ (.drop (.inl rfl))) rfl
    simp only [Piece.size, Site.one, Site.jump, ← Nat.add_assoc]
    exact second _
  · simp [Plan.height]

end CarriesTypes

end Piece

end

open Piece

theorem Ty.element?_eq_some {ty element : Ty} (isArray : ty.element? = some element) :
  ty = .array element
  := by
  cases ty with
  | array => rw [Option.some.inj isArray]
  | _ => cases isArray

/-! ### Expressions -/

theorem Gen.elementKind_array {ty element : Ty} (isArray : ty = .array element) :
  Gen.elementKind ty = element.slotKind
  := by simp [Gen.elementKind, isArray, Ty.element?]

/-- The code of a call of a function value. -/
theorem Expr.piece_call {m : Mark} {args : List Expr} (noMethod : callee.isMethod = false) :
  (Expr.call m callee args).piece site
    = ((Expr.pieces site args).seq args.length (callee.piece site)).seq (args.length + 1)
      (site.one m.position (.invoke args.length))
  := by
  cases callee with
  | method => cases noMethod
  | _ => rfl

theorem Expr.spots_call {m : Mark} {args : List Expr} (noMethod : callee.isMethod = false) :
  (Expr.call m callee args).spots site pc
    = ⟨.expr (.call m callee args), site, pc⟩ :: (Expr.listSpots site pc args
      ++ callee.spots site (pc + (Expr.pieces site args).size))
  := by
  cases callee with
  | method => cases noMethod
  | _ => rfl

/-- The code of a call of a function value ends with the instruction that calls it. -/
theorem Expr.stop_call (m : Mark) (args : List Expr) (site : Site) (pc : Nat)
    (noMethod : callee.isMethod = false) :
  (⟨.expr (.call m callee args), site, pc⟩ : Spot).stop
    = pc + ((Expr.pieces site args).seq args.length (callee.piece site)).size + Op.invoke.size
  := by
  rw [Nat.add_assoc]
  exact congrArg (fun q : Piece => pc + q.size) (Expr.piece_call noMethod)

theorem Expr.stop_methodCall (m m' : Mark) (object : Expr) (k : UInt16) (args : List Expr)
    (site : Site) (pc : Nat) :
  (⟨.expr (.call m (.method m' object k) args), site, pc⟩ : Spot).stop
    = pc + (((Expr.pieces site args).seq args.length (object.piece site)).seq (args.length + 1)
        (site.one m.position { op := .pushMethod, operand := .number k.toNat })).size
      + Op.invoke.size
  := (Nat.add_assoc ..).symm

theorem Expr.mem_spots_self (e : Expr) :
  ⟨.expr e, site, pc⟩ ∈ e.spots site pc
  := by
  cases e with
  | call m callee args =>
    cases callee with
    | _ => exact List.mem_cons_self
  | _ => exact List.mem_cons_self

mutual

/-- The code of an expression leaves a value of its type. -/
theorem Expr.carries_piece {p : Program} {exe : Executable} {current : Option Nat} {site : Site}
    (frame : exe.HasSite current site) :
  (e : Expr) → ∀ (plans : Aim → Option Plan) (tys : List Ty) {pc : Nat},
    TypedSpots p exe current (e.spots site pc) →
    CarriesTypes p exe current plans pc (.plain tys) (e.piece site)
      (some (.plain (tys ++ [e.ty])))
  | .boolean m value, plans, tys, pc, typed => by
      cases typed.head.2 with
      | boolean fits => exact .literal ⟨rfl, nofun, rfl, rfl⟩ rfl (fits.of_plain rfl rfl)
  | .int m value, plans, tys, pc, typed => by
      cases typed.head.2 with
      | int fits => exact .literal (Directive.plain_int value) (Directive.makes?_int value) fits
  | .double m value, plans, tys, pc, typed => by
      cases typed.head.2 with
      | double fits =>
        exact .literal (Directive.plain_double value) (Directive.makes?_double value)
          (fits.of_plain rfl rfl)
  | .string m value, plans, tys, pc, typed => by
      cases typed.head.2 with
      | string fits => exact .literal ⟨rfl, nofun, rfl, rfl⟩ rfl fits
  | .null m, plans, tys, pc, typed => by
      cases typed.head.2 with
      | null fits => exact .push ⟨rfl, nofun, rfl, rfl⟩ (.null rfl fits.isReference_of_null)
  | .var m place, plans, tys, pc, typed => by
      cases typed.head.2 with
      | var declared fits =>
        exact .push (Directive.plain_load _ _ place) (.load frame declared fits)
  | .function m k, plans, tys, pc, typed => by
      cases typed.head.2 with
      | function found fits => exact .push ⟨rfl, nofun, rfl, rfl⟩ (.function rfl rfl found fits)
  | .assign m target value, plans, tys, pc, typed => by
      cases typed.head.2 with
      | assign stores fits =>
        have computed := value.carries_piece frame plans tys typed.tail.left
        apply Carries.seq (computed.duplicate fits)
        · simp [Plan.height]
        · exact target.carries_storePiece frame m.position stores typed.tail.right
  | .binary m op lhs rhs, plans, tys, pc, typed => by
      rw [Expr.spots] at typed
      rw [Expr.piece]
      cases typed.head.2 with
      | binary full fits =>
        rw [full] at typed ⊢
        have plain := Directive.plain_binary full lhs.ty rhs.ty
        exact (lhs.carries_piece frame plans tys typed.tail.left).binary
          (rhs.carries_piece frame plans _ typed.tail.right) plain
          (.make (Gen.makes?_binaryOp full _ _) plain.takes_eq.symm fits)
      | shortCut skips left right =>
        obtain ⟨skip, short⟩ := Option.ne_none_iff_exists'.1 skips
        have first := fun plans => lhs.carries_piece frame plans tys typed.tail.left
        have second := fun plans => rhs.carries_piece frame plans tys typed.tail.right
        rw [left] at first
        rw [right] at second
        rw [short] at second ⊢
        simp only [Option.map_some, Option.getD_some, ← Nat.add_assoc] at second
        exact .shortCut (Gen.shortCut?_eq_some short) first second
  | .unary m op operand, plans, tys, pc, typed => by
      cases typed.head.2 with
      | unary fits =>
        exact (operand.carries_piece frame plans tys typed.tail).unary (Directive.plain_unary op _)
          (Gen.makes?_unaryOp op _) fits
  | .call m callee args, plans, tys, pc, typed => by
      have called : ∀ (tys : List Ty) {pc : Nat}, TypedSpots p exe current (callee.spots site pc) →
          CarriesTypes p exe current plans pc (.plain tys) (callee.piece site)
            (some (.plain (tys ++ [callee.ty]))) := callee.carries_piece frame plans
      have rule := typed _ (Expr.mem_spots_self _)
      cases rule.2 with
      | call noMethod isFunction fits result =>
        rw [Expr.spots_call noMethod] at typed
        have passed := Expr.carries_pieces frame args plans tys typed.tail.left
        have found := called (tys ++ args.map Expr.ty) typed.tail.right
        rw [isFunction] at found
        have stops := Expr.stop_call m args site pc noMethod
        rw [Expr.piece_call noMethod]
        apply Carries.seq (.seq passed _ found)
        · simp [Plan.height]
        · have call : p.CallAt current _ callee args := ⟨_, rule.1, stops, m, rfl⟩
          rw [← isFunction]
          exact .one rfl (by nofun) (.call call noMethod isFunction fits result)
        · simp [Plan.height]
      | @methodCall _ _ object k _ _ _ _ declared params fits result =>
        have passed := Expr.carries_pieces frame args plans tys typed.tail.left
        have found := object.carries_piece frame plans (tys ++ args.map Expr.ty) typed.tail.right
        apply Carries.seq (.seq (.seq passed _ found) _ (.one rfl (by nofun) (.method rfl rfl)))
        · simp [Plan.height, Nat.add_assoc]
        · have call : p.CallAt current _ (.method _ object k) args :=
            ⟨_, rule.1, Expr.stop_methodCall .., m, rfl⟩
          exact .one rfl (by nofun) (.callMethod call declared params fits result)
        · simp [Plan.height]
        · simp [Plan.height]
  | .method m object k, plans, tys, pc, typed => by cases typed.head.2
  | .index m array k, plans, tys, pc, typed => by
      cases typed.head.2 with
      | index isArray fits =>
        have found := array.carries_piece frame plans tys typed.tail.left
        rw [isArray] at found
        exact found.binary (k.carries_piece frame plans _ typed.tail.right)
          ⟨rfl, nofun, rfl, rfl⟩ (.element rfl fits)
  | .field m object k, plans, tys, pc, typed => by
      cases typed.head.2 with
      | field declared fits =>
        exact (object.carries_piece frame plans tys typed.tail).followed ⟨rfl, nofun, rfl, rfl⟩
          (.field rfl rfl declared fits)
  | .new m k, plans, tys, pc, typed => by
      cases typed.head.2 with
      | new fits => exact .push ⟨rfl, nofun, rfl, rfl⟩ (.new rfl rfl fits)
  | .newArray m size, plans, tys, pc, typed => by
      cases typed.head.2 with
      | newArray isArray =>
        have carried := size.carries_piece frame plans tys typed.tail
        change CarriesTypes p exe current plans pc _ _ (some (.plain (tys ++ [m.ty])))
        rw [Expr.piece, Gen.elementKind_array isArray, isArray]
        exact carried.followed ⟨rfl, nofun, rfl, rfl⟩ (.newArray rfl)
  | .arrayLiteral m items, plans, tys, pc, typed => by
      cases typed.head.2 with
      | arrayLiteral isArray fits =>
        change CarriesTypes p exe current plans pc _ _ (some (.plain (tys ++ [m.ty])))
        rw [Expr.piece, Gen.elementKind_array isArray, isArray]
        apply Carries.seq (Expr.carries_pieces frame items plans tys typed.tail)
        · simp [Plan.height]
        · refine Carries.one rfl (by nofun) (.arrayLiteral rfl (List.length_map _) ?_)
          simpa using fits
  | .convert m conversion operand, plans, tys, pc, typed => by
      cases typed.head.2 with
      | convert fits =>
        exact (operand.carries_piece frame plans tys typed.tail).unary ⟨rfl, nofun, rfl, rfl⟩ rfl
          fits
  | .downCast m k operand, plans, tys, pc, typed => by
      cases typed.head.2 with
      | downCast fits =>
        exact (operand.carries_piece frame plans tys typed.tail).followed ⟨rfl, nofun, rfl, rfl⟩
          (.downCast rfl rfl fits)
  | .instanceOf m k operand, plans, tys, pc, typed => by
      cases typed.head.2 with
      | instanceOf fits =>
        exact (operand.carries_piece frame plans tys typed.tail).unary ⟨rfl, nofun, rfl, rfl⟩ rfl
          (fits.of_plain rfl rfl)
  | .arrayLength m array, plans, tys, pc, typed => by
      cases typed.head.2 with
      | arrayLength fits =>
        exact (array.carries_piece frame plans tys typed.tail).unary ⟨rfl, nofun, rfl, rfl⟩ rfl fits
  | .stringLength m text, plans, tys, pc, typed => by
      cases typed.head.2 with
      | stringLength fits =>
        exact (text.carries_piece frame plans tys typed.tail).unary ⟨rfl, nofun, rfl, rfl⟩ rfl fits
termination_by e => sizeOf e

theorem Expr.carries_pieces {p : Program} {exe : Executable} {current : Option Nat} {site : Site}
    (frame : exe.HasSite current site) :
  (es : List Expr) → ∀ (plans : Aim → Option Plan) (tys : List Ty) {pc : Nat},
    TypedSpots p exe current (Expr.listSpots site pc es) →
    CarriesTypes p exe current plans pc (.plain tys) (Expr.pieces site es)
      (some (.plain (tys ++ es.map Expr.ty)))
  | [], plans, tys, pc, _ => by
      rw [List.map_nil, List.append_nil]
      exact .empty
  | e :: rest, plans, tys, pc, typed => by
      have later := Expr.carries_pieces frame rest plans (tys ++ [e.ty]) typed.right
      rw [List.append_assoc] at later
      exact .seq (e.carries_piece frame plans tys typed.left) (by simp [Plan.height]) later
termination_by es => sizeOf es

/-- An assignment takes a value of the type of its target. -/
theorem Expr.carries_storePiece {p : Program} {exe : Executable} {current : Option Nat} {site : Site}
    (frame : exe.HasSite current site) (position : Position) (target : Expr)
    {plans : Aim → Option Plan} {pc : Nat} {tys : List Ty} {ty : Ty}
    (stores : exe.Stores current target ty)
    (typed : TypedSpots p exe current (target.targetSpots site pc)) :
  CarriesTypes p exe current plans pc (.plain (tys ++ [ty])) (target.storePiece site position)
    (some (.plain tys))
  := by
  obtain ⟨ty', declared, fits⟩ := stores
  cases target with
  | var m place =>
    have plain := Directive.plain_store site.params m.ty place
    exact .one plain.noJump plain.noReturn (.store frame declared fits)
  | index m array k =>
    have isArray : array.ty = .array ty' := Ty.element?_eq_some declared
    have found := array.carries_piece frame plans (tys ++ [ty]) typed.left
    rw [isArray] at found
    apply found.binary (k.carries_piece frame plans _ typed.right) ⟨rfl, by nofun, rfl, rfl⟩
    rw [List.append_assoc]
    exact .setElement rfl fits
  | field m object k =>
    apply (object.carries_piece frame plans (tys ++ [ty]) typed).followed ⟨rfl, by nofun, rfl, rfl⟩
    rw [List.append_assoc]
    exact .setField rfl rfl declared fits
  | _ => cases declared
termination_by sizeOf target

end

/-! ### Statements -/

section

variable {p : Program} {exe : Executable} {current : Option Nat} {plans : Aim → Option Plan}
  {pc : Nat} {site : Site} {position : Position} {q r : Piece} {stop : Option Plan}

namespace Piece.CarriesTypes

theorem andThen
    (first : CarriesTypes p exe current plans pc (.plain []) q (some (.plain [])))
    (second : CarriesTypes p exe current plans (pc + q.size) (.plain []) r stop) :
  CarriesTypes p exe current plans pc (.plain []) (q.seq 0 r) stop
  := .seq first rfl second

theorem mark {aim : Aim}
    (first : CarriesTypes p exe current (Function.update plans aim (some (.plain []))) pc (.plain [])
      q (some (.plain [])))
    (second : CarriesTypes p exe current (Function.update plans aim (some (.plain [])))
      (pc + q.size) (.plain []) r stop) :
  CarriesTypes p exe current plans pc (.plain []) (.mark aim q 0 r) stop
  := Carries.mark first rfl second

/-- A condition that is jumped on. -/
theorem test {op : Op} {aim : Aim} {ty : Ty}
    (carries : CarriesTypes p exe current plans pc (.plain []) q (some (.plain [ty])))
    (conditional : op = .jumpIfTrue ∨ op = .jumpIfFalse) (there : plans aim = some (.plain [])) :
  CarriesTypes p exe current plans pc (.plain []) (q.seq 1 (site.jump position op aim))
    (some (.plain []))
  := by
  have drops : ∀ place : Nat, Moves p exe current (pc + q.size) { op, operand := .number place }
      (.plain ([] ++ [ty])) (.plain []) := fun _ => .drop (.inr conditional)
  exact .seq carries rfl (.jumpIf conditional drops there)

theorem jump {aim : Aim} (there : plans aim = some (.plain [])) :
  CarriesTypes p exe current plans pc (.plain []) (site.jump position .jump aim) stop
  := by
  have jumps : CarriesTypes p exe current plans pc (.plain []) (site.jump position .jump aim) none :=
    Carries.jump (fun _ => .jump rfl) there
  cases stop with
  | none => exact jumps
  | some plan => exact .unreached jumps

end Piece.CarriesTypes

/-- An expression that is computed for its effect leaves nothing. -/
theorem Expr.carries_effectPiece (frame : exe.HasSite current site) (e : Expr)
    (rule : exe.TypesEffect current e) (plans : Aim → Option Plan)
    (typed : TypedSpots p exe current (e.effectSpots site pc)) :
  CarriesTypes p exe current plans pc (.plain []) (e.effectPiece site) (some (.plain []))
  := by
  have dropped (typed : TypedSpots p exe current (e.spots site pc)) :
      CarriesTypes p exe current plans pc (.plain [])
        ((e.piece site).seq 1 (site.one e.position { op := .pop })) (some (.plain [])) :=
    (e.carries_piece frame plans [] typed).followed ⟨rfl, by decide, rfl, rfl⟩ (.drop (.inl rfl))
  cases e with
  | assign m target value =>
    have computed := value.carries_piece frame plans [] typed.left
    apply Carries.seq computed rfl
    exact target.carries_storePiece frame m.position (rule m target value rfl) typed.right
  | _ => exact dropped typed

theorem carries_optionalEffectPiece (frame : exe.HasSite current site) (e : Option Expr)
    (rule : ∀ e', e = some e' → exe.TypesEffect current e') (plans : Aim → Option Plan)
    (typed : TypedSpots p exe current (optionalEffectSpots site pc e)) :
  CarriesTypes p exe current plans pc (.plain []) (optionalEffectPiece site e) (some (.plain []))
  := by
  cases e with
  | none => exact .empty
  | some e => exact e.carries_effectPiece frame (rule e rfl) plans typed

/-- What a `return` without a value yields is of the return type. -/
theorem carries_default {tys : List Ty} (ty : Ty) :
  CarriesTypes p exe current plans pc (.plain tys) (site.one position (.default ty))
    (some (.plain (tys ++ [ty])))
  := by
  have plain := Directive.plain_default ty
  cases ty with
  | double => exact .literal plain rfl (.plain rfl rfl rfl)
  | string => exact .literal plain rfl (.refl _)
  | null | «class» index | array element => exact .push plain (.null rfl rfl)
  | _ => exact .push plain (.zero rfl)

theorem carries_returnPiece (frame : exe.HasSite current site) (value : Option Expr)
    (rule : ∀ e index f, value = some e → current = some index →
      exe.functions[index]? = some f → exe.Fits e.ty f.returnType) (plans : Aim → Option Plan)
    (typed : TypedSpots p exe current (optionalSpots site pc value)) :
  CarriesTypes p exe current plans pc (.plain []) (returnPiece site position value) none
  := by
  cases value with
  | none =>
    apply Carries.seq (carries_default site.returns) rfl
    apply Carries.ret
    apply Moves.ret rfl
    intro index f inside found
    rw [(frame index f inside found).2]
    exact .refl _
  | some value =>
    apply Carries.seq (value.carries_piece frame plans [] typed) rfl
    apply Carries.ret
    apply Moves.ret rfl
    exact fun index f => rule value index f rfl

/-- A block that is run if a condition holds, or else what follows it. -/
theorem carries_branchPiece (frame : exe.HasSite current site) {condition : Expr}
    {body others : Piece} (typed : TypedSpots p exe current (condition.spots site pc))
    (done : plans .done = some (.plain []))
    (block : CarriesTypes p exe current (Function.update plans .next (some (.plain [])))
      (branchBody site pc condition) (.plain []) body (some (.plain [])))
    (rest : CarriesTypes p exe current (Function.update plans .next (some (.plain [])))
      (branchBody site pc condition + body.size + Op.jump.size) (.plain []) others
      (some (.plain []))) :
  CarriesTypes p exe current plans pc (.plain []) (branchPiece site condition body others)
    (some (.plain []))
  := by
  have tested := condition.carries_piece frame (Function.update plans .next (some (.plain []))) []
    typed
  apply CarriesTypes.mark
  · apply ((tested.test (.inr rfl) (Function.update_self ..)).andThen block).andThen
    apply CarriesTypes.jump
    rw [Function.update_of_ne (by decide), done]
  · simp only [branchBody, ← Nat.add_assoc] at rest
    simp only [Piece.size, Site.jump, ← Nat.add_assoc]
    exact rest

/-- Inside a loop, the ends of the loop are reached without operands. -/
def LoopPlans (inLoop : Bool) (plans : Aim → Option Plan) : Prop :=
  inLoop → plans .break_ = some (.plain []) ∧ plans .continue_ = some (.plain [])

theorem LoopPlans.update {inLoop : Bool} (loop : LoopPlans inLoop plans) (aim : Aim) :
  LoopPlans inLoop (Function.update plans aim (some (.plain [])))
  := by
  intro inside
  obtain ⟨breaks, continues⟩ := loop inside
  cases aim
  all_goals simp [Function.update, breaks, continues]

theorem carries_loopConditionPiece (frame : exe.HasSite current site) (condition : Option Expr)
    (breaks : plans .break_ = some (.plain []))
    (typed : TypedSpots p exe current (optionalSpots site pc condition)) :
  CarriesTypes p exe current plans pc (.plain []) (loopConditionPiece site condition)
    (some (.plain []))
  := by
  cases condition with
  | none => exact .empty
  | some condition =>
    exact (condition.carries_piece frame plans [] typed).test (.inr rfl) breaks

theorem carries_loopPiece (frame : exe.HasSite current site) {condition post : Option Expr}
    {body : Piece} {first next : Nat}
    (first_eq : first = pc + (loopConditionPiece site condition).size)
    (next_eq : next = first + body.size)
    (tested : TypedSpots p exe current (optionalSpots site pc condition))
    (block : ∀ plans, LoopPlans true plans →
      CarriesTypes p exe current plans first (.plain []) body (some (.plain [])))
    (rule : ∀ e, post = some e → exe.TypesEffect current e)
    (after : TypedSpots p exe current (optionalEffectSpots site next post)) :
  CarriesTypes p exe current plans pc (.plain []) (loopPiece site position condition body post)
    (some (.plain []))
  := by
  subst next_eq first_eq
  apply CarriesTypes.mark .empty
  apply CarriesTypes.mark _ .empty
  apply CarriesTypes.mark
  · apply (carries_loopConditionPiece frame condition _ tested).andThen
    · apply block
      intro _
      simp [Function.update]
    · simp [Function.update]
  · rw [Piece.size, Piece.size, Nat.add_zero, ← Nat.add_assoc]
    apply (carries_optionalEffectPiece frame post rule _ after).andThen
    apply CarriesTypes.jump
    simp [Function.update]

end

mutual

/-- The code of a statement leaves nothing. -/
theorem Stmt.carries_piece {p : Program} {exe : Executable} {current : Option Nat}
    {loop : Option (Nat × Nat)} :
  (s : Stmt) → ∀ {site : Site} {plans : Aim → Option Plan} {pc : Nat}, exe.HasSite current site →
    LoopPlans loop.isSome plans → TypedSpots p exe current (s.spots site loop pc) →
    CarriesTypes p exe current plans pc (.plain []) (s.piece site loop.isSome) (some (.plain []))
  | .expression q e, site, plans, pc, frame, _, typed =>
      e.carries_effectPiece (frame.enter q.line) typed.head.2 plans typed.tail
  | .declaration _ _ _ none, _, _, _, _, _, _ => .empty
  | .declaration q place ty (some initial), site, plans, pc, frame, _, typed => by
      obtain ⟨ty', declared, fits⟩ := typed.head.2
      exact (initial.carries_piece (frame.enter q.line) plans [] typed.tail).followed
        (Directive.plain_store _ ty place) (.store (frame.enter q.line) declared fits)
  | .branch q condition thenBlock elifs elseBlock, site, plans, pc, frame, inside, typed => by
      have inside' := (inside.update .done).update .next
      have parts := typed.tail
      apply CarriesTypes.mark _ .empty
      apply carries_branchPiece (frame.enter q.line) parts.left.left (Function.update_self ..)
      · exact Stmt.carries_pieces thenBlock (frame.enter q.line) inside' parts.left.right
      · apply CarriesTypes.andThen
        · apply Elif.carries_pieces elifs (frame.enter q.line) inside' _ parts.right.left
          simp [Function.update]
        · exact Stmt.carries_elsePiece elseBlock (frame.enter q.line) inside' parts.right.right
  | .loop q init condition post body, site, plans, pc, frame, _, typed => by
      obtain ⟨before, after⟩ := typed.head.2
      have parts := typed.tail
      have started := carries_optionalEffectPiece (frame.enter q.line) init before plans parts.left
      apply started.andThen
      apply carries_loopPiece (frame.enter q.line) rfl rfl parts.right.left.left _ after
        parts.right.right
      intro plans' inside
      refine Stmt.carries_pieces body (frame.enter q.line) ?_ parts.right.left.right
      exact inside
  | .ret q value, site, plans, pc, frame, _, typed => by
      apply Carries.unreached
      apply carries_returnPiece (frame.enter q.line) value _ plans typed.tail
      rintro e index f rfl
      exact typed.head.2 index f
  | .break_ _, _, _, _, _, inside, _ => by
      rw [Stmt.piece]
      split
      · next loops => exact .jump (inside loops).1
      · exact .empty
  | .continue_ _, _, _, _, _, inside, _ => by
      rw [Stmt.piece]
      split
      · next loops => exact .jump (inside loops).2
      · exact .empty
  | .block q statements, site, plans, pc, frame, inside, typed =>
      Stmt.carries_pieces statements (frame.enter q.line) inside typed.tail

theorem Stmt.carries_pieces {p : Program} {exe : Executable} {current : Option Nat}
    {loop : Option (Nat × Nat)} :
  (ss : List Stmt) → ∀ {site : Site} {plans : Aim → Option Plan} {pc : Nat},
    exe.HasSite current site → LoopPlans loop.isSome plans →
    TypedSpots p exe current (Stmt.listSpots site loop pc ss) →
    CarriesTypes p exe current plans pc (.plain []) (Stmt.pieces site loop.isSome ss)
      (some (.plain []))
  | [], _, _, _, _, _, _ => .empty
  | s :: rest, _, _, _, frame, inside, typed =>
      (s.carries_piece frame inside typed.left).andThen
        (Stmt.carries_pieces rest frame inside typed.right)

theorem Elif.carries_pieces {p : Program} {exe : Executable} {current : Option Nat}
    {loop : Option (Nat × Nat)} :
  (elifs : List Elif) → ∀ {site : Site} {plans : Aim → Option Plan} {pc : Nat},
    exe.HasSite current site → LoopPlans loop.isSome plans → plans .done = some (.plain []) →
    TypedSpots p exe current (Elif.spots site loop pc elifs) →
    CarriesTypes p exe current plans pc (.plain []) (Elif.pieces site loop.isSome elifs)
      (some (.plain []))
  | [], _, _, _, _, _, _, _ => .empty
  | .mk condition body :: rest, _, _, _, frame, inside, done, typed => by
      apply carries_branchPiece frame typed.left.left done
      · exact Stmt.carries_pieces body frame (inside.update .next) typed.left.right
      · apply Elif.carries_pieces rest frame (inside.update .next) _ typed.right
        simp [Function.update, done]

theorem Stmt.carries_elsePiece {p : Program} {exe : Executable} {current : Option Nat}
    {loop : Option (Nat × Nat)} :
  (body : Option (List Stmt)) → ∀ {site : Site} {plans : Aim → Option Plan} {pc : Nat},
    exe.HasSite current site → LoopPlans loop.isSome plans →
    TypedSpots p exe current (Stmt.elseSpots site loop pc body) →
    CarriesTypes p exe current plans pc (.plain []) (Stmt.elsePiece site loop.isSome body)
      (some (.plain []))
  | none, _, _, _, _, _, _ => .empty
  | some body, _, _, _, frame, inside, typed => Stmt.carries_pieces body frame inside typed

end

/-! ### Bodies -/

/-- Control does not run past statements of which the last one returns. -/
theorem Stmt.carries_pieces_of_return {plans : Aim → Option Plan}
    (frame : exe.HasSite current site) {ss : List Stmt}
    (returns : (ss.getLast?.map Stmt.isReturn).getD false)
    (typed : TypedSpots p exe current (Stmt.listSpots site none pc ss)) :
  CarriesTypes p exe current plans pc (.plain []) (Stmt.pieces site false ss) none
  := by
  induction ss generalizing pc with
  | nil => cases returns
  | cons s rest ih =>
    cases rest with
    | nil =>
      cases s with
      | ret q value =>
        apply Carries.unentered
        apply carries_returnPiece (frame.enter q.line) value _ plans typed.left.tail
        rintro e index f rfl
        exact typed.left.head.2 index f
      | _ => cases returns
    | cons s' rest =>
      apply (s.carries_piece frame (by nofun) typed.left).andThen
      exact ih (by simpa using returns) typed.right

/-- Control does not run past the end of a function. -/
theorem FunctionDecl.carries_piece {f : FunctionDecl} {body : Block}
    (frame : exe.HasSite current f.site)
    (typed : TypedSpots p exe current (Stmt.listSpots f.site none 0 body)) :
  CarriesTypes p exe current (fun _ => none) 0 (.plain []) (f.piece body) none
  := by
  unfold FunctionDecl.piece
  split
  · next returns => exact .unentered (Stmt.carries_pieces_of_return frame returns typed)
  · apply CarriesTypes.andThen (Stmt.carries_pieces body frame (by nofun) typed)
    exact carries_returnPiece frame none (by nofun) _ (by nofun)

/-- A chart of the code of a function of the table, or of the top level, by types of operands. -/
structure Program.TypeChart (p : Program) (exe : Executable) (current : Option Nat)
    (chart : List (Point × Plan)) : Prop where
  points : chart.map Prod.fst = p.points current
  enters : p.points current ≠ [] → Marks chart 0 (.plain [])
  charted : Charted Plan.height (Moves p exe current) chart
    fun pc plan => current = none ∧ pc = (p.piece current).size ∧ plan = .plain []

theorem CompiledFrom.hasSite (compiled : CompiledFrom p exe) {index : Nat} {f : FunctionDecl}
    (declared : p.functions[index]? = some f) :
  exe.HasSite (some index) f.site
  := by
  intro _ g inside found
  cases inside
  obtain ⟨f', declared', fromDecl⟩ := compiled.function_of_getElem? found
  obtain rfl : f = f' := Option.some.inj (declared.symm.trans declared')
  exact ⟨congrArg List.length fromDecl.params.symm, fromDecl.returnType.symm⟩

theorem Program.WellTyped.exists_chart (compiled : CompiledFrom p exe)
    (wellTyped : p.WellTyped exe) (current : Option Nat) :
  ∃ chart, p.TypeChart exe current chart
  := by
  have typed : TypedSpots p exe current (p.spots current) :=
    fun spot listed => ⟨listed, wellTyped.constructs current spot listed⟩
  cases current with
  | none =>
    have carries : CarriesTypes p exe none (fun _ => none) 0 (.plain []) (p.piece none)
        (some (.plain [])) := Stmt.carries_pieces p.statements (by nofun) (by nofun) typed
    obtain ⟨chart, points, enters, charted⟩ := carries.exists_chart fun _ => 0
    refine ⟨chart, points, ?_, charted.mono ?_⟩
    · intro some
      apply enters.resolve_right
      rintro ⟨none, -⟩
      obtain ⟨point, listed⟩ := List.exists_mem_of_ne_nil _ some
      have bounds := bounds_of_mem_points listed
      have positive := point.op.size_pos
      unfold Point.next at bounds
      omega
    · rintro pc plan (⟨rfl, ends⟩ | ⟨aim, impossible, -⟩)
      · cases ends
        exact ⟨rfl, Nat.zero_add _, rfl⟩
      · cases impossible
  | some index =>
    by_cases empty : p.points (some index) = []
    · exact ⟨[], empty.symm, fun some => absurd empty some, .nil⟩
    · have carries : CarriesTypes p exe (some index) (fun _ => none) 0 (.plain [])
          (p.piece (some index)) none := by
        simp only [Program.points, Program.piece] at empty ⊢
        cases declared : p.functions[index]? with
        | none => simp [declared, Piece.points] at empty
        | some f =>
          cases bodied : f.body with
          | none => simp [declared, bodied, Piece.points] at empty
          | some body =>
            simp only [Program.spots, declared, bodied, Option.map_some, Option.getD_some]
              at typed ⊢
            exact FunctionDecl.carries_piece (compiled.hasSite declared) typed
      obtain ⟨chart, points, enters, charted⟩ := carries.exists_chart fun _ => 0
      refine ⟨chart, points, fun _ => ?_, charted.mono ?_⟩
      · apply enters.resolve_right
        rintro ⟨-, impossible⟩
        cases impossible
      · rintro pc plan (⟨-, impossible⟩ | ⟨aim, impossible, -⟩)
        · cases impossible
        · cases impossible

/-- The operands before an instruction are of the given types. -/
def Program.Expects (p : Program) (exe : Executable) (current : Option Nat) (point : Point)
    (plan : Plan) : Prop :=
  ∃ chart, p.TypeChart exe current chart ∧ (point, plan) ∈ chart

/-- Control may be at the place with operands of the given types: before an instruction, or at the end
of the top level. -/
def Program.Awaits (p : Program) (exe : Executable) (current : Option Nat) (pc : Nat) (plan : Plan) :
    Prop :=
  (∃ point, p.Expects exe current point plan ∧ point.pc = pc)
    ∨ (current = none ∧ pc = (p.piece current).size ∧ plan = .plain [])

namespace Program.Expects

variable {p : Program} {exe : Executable} {current : Option Nat} {point : Point} {plan : Plan}

theorem mem_points (expects : p.Expects exe current point plan) :
  point ∈ p.points current
  := by
  obtain ⟨chart, typeChart, listed⟩ := expects
  rw [← typeChart.points]
  exact List.mem_map_of_mem listed

/-- An instruction makes types of operands with which the code goes on, unless it ends. -/
theorem follows (expects : p.Expects exe current point plan) :
  point.Follows (Moves p exe current) (p.Awaits exe current) plan
  := by
  obtain ⟨chart, typeChart, listed⟩ := expects
  apply (typeChart.charted.follows point plan listed).mono
  rintro pc plan' (⟨point', listed', here⟩ | ends)
  · exact .inl ⟨point', ⟨chart, typeChart, listed'⟩, here⟩
  · exact .inr ends

end Program.Expects

/-- The code of a well-typed program starts without operands. -/
theorem Program.WellTyped.awaits_start (compiled : CompiledFrom p exe)
    (wellTyped : p.WellTyped exe)
    (starts : Lands (p.points current) 0 0 ∨ current = none ∧ 0 = (p.piece current).size) :
  p.Awaits exe current 0 (.plain [])
  := by
  rcases starts with ⟨point, listed, -⟩ | ⟨top, empty⟩
  · obtain ⟨chart, typeChart⟩ := wellTyped.exists_chart compiled current
    obtain ⟨first, there, here⟩ := typeChart.enters (List.ne_nil_of_mem listed)
    exact .inl ⟨first, ⟨chart, typeChart, there⟩, here⟩
  · exact .inr ⟨top, empty, rfl⟩

end Bytecode
