import Mathlib
import Bytecode.Proofs.Typing.Rules

/-!
# What instructions make of types

`Moves` says what an instruction makes of the types of the operands. In between the two instructions
that call a method, the operand on top is the function found for the object below it, which no type
expresses; there the description of the stack is a `Plan.dispatch`.
-/

namespace Bytecode

open List (Forall₂)

/-- What is on the stack before an instruction: operands of the given types, the topmost one last,
or above them the function of a method slot of the topmost one. -/
inductive Plan where
  | plain (tys : List Ty)
  | dispatch (tys : List Ty) (slot : Nat)

def Plan.height : Plan → Nat
  | .plain tys => tys.length
  | .dispatch tys _ => tys.length + 1

/-- The type of what an instruction pushes that makes a number, a truth value or a new string of its
operands. -/
def Op.makes? : Op → Option Ty
  | .pushInt1Byte | .pushInt2Byte | .pushInt | .pushDouble0 | .pushDouble1 | .pushDouble
  | .arithInt _ | .arithDouble _ | .minusInt | .minusDouble | .compareInt _ | .compareDouble _
  | .compareString _ | .eqObject | .neObject | .logicalNot | .arraySize | .stringLength
  | .instanceOf => some .int
  | .pushString | .addString => some .string
  | .cast conversion => some conversion.result
  | _ => none

/-- The code of a call ends with the instruction at the place. -/
def Program.CallAt (p : Program) (current : Option Nat) (pc : Nat) (callee : Expr)
    (args : List Expr) : Prop :=
  ∃ spot ∈ p.spots current, spot.stop = pc + Op.invoke.size
    ∧ ∃ m, spot.construct = .expr (.call m callee args)

theorem Spot.isSome_callArgs? {spot : Spot} {m : Mark} {callee : Expr} {args : List Expr}
    (isCall : spot.construct = .expr (.call m callee args)) :
  spot.callArgs?.isSome
  := by
  rw [Spot.callArgs?, isCall]
  cases callee with
  | _ => rfl

/-- There is one call for the instruction. -/
theorem Program.CallAt.unique {p : Program} {current : Option Nat} {pc : Nat}
    {callee callee' : Expr} {args args' : List Expr} (call : p.CallAt current pc callee args)
    (call' : p.CallAt current pc callee' args') :
  callee = callee' ∧ args = args'
  := by
  obtain ⟨spot, listed, stops, m, isCall⟩ := call
  obtain ⟨spot', listed', stops', m', isCall'⟩ := call'
  obtain rfl := p.eq_of_call listed listed' (Spot.isSome_callArgs? isCall)
    (Spot.isSome_callArgs? isCall') (stops.trans stops'.symm)
  cases isCall.symm.trans isCall'
  exact ⟨rfl, rfl⟩

/-- The site is in the code of a function, or of the top level. -/
def Executable.HasSite (exe : Executable) (current : Option Nat) (site : Site) : Prop :=
  ∀ index f, current = some index → exe.functions[index]? = some f →
    site.params = f.params.length ∧ site.returns = f.returnType

/-- What an instruction makes of the types of operands. -/
inductive Moves (p : Program) (exe : Executable) (current : Option Nat) :
    Nat → Directive → Plan → Plan → Prop
  | jump {pc : Nat} {i : Directive} {plan : Plan} : i.op = .jump → Moves p exe current pc i plan plan
  | drop {pc : Nat} {i : Directive} {tys : List Ty} {ty : Ty} :
      i.op = .pop ∨ i.op = .jumpIfTrue ∨ i.op = .jumpIfFalse →
      Moves p exe current pc i (.plain (tys ++ [ty])) (.plain tys)
  | make {pc : Nat} {i : Directive} {tys operands : List Ty} {made ty : Ty} :
      i.op.makes? = some made → operands.length = i.takes → exe.Fits made ty →
      Moves p exe current pc i (.plain (tys ++ operands)) (.plain (tys ++ [ty]))
  /-- Zero is of every type that is no reference, also of function types. -/
  | zero {pc : Nat} {tys : List Ty} {ty : Ty} : ty.isReference = false →
      Moves p exe current pc (.bool false) (.plain tys) (.plain (tys ++ [ty]))
  | null {pc : Nat} {i : Directive} {tys : List Ty} {ty : Ty} :
      i.op = .pushNull → ty.isReference = true →
      Moves p exe current pc i (.plain tys) (.plain (tys ++ [ty]))
  | load {pc : Nat} {site : Site} {kind : Ty} {place : Variable} {tys : List Ty} {ty ty' : Ty} :
      exe.HasSite current site → exe.variableTy? current place = some ty → exe.Fits ty ty' →
      Moves p exe current pc (.load site.params kind place) (.plain tys) (.plain (tys ++ [ty']))
  | store {pc : Nat} {site : Site} {kind : Ty} {place : Variable} {tys : List Ty} {ty ty' : Ty} :
      exe.HasSite current site → exe.variableTy? current place = some ty' → exe.Fits ty ty' →
      Moves p exe current pc (.store site.params kind place) (.plain (tys ++ [ty])) (.plain tys)
  | function {pc k : Nat} {i : Directive} {f : Function} {tys : List Ty} {ty : Ty} :
      i.op = .pushFunction → i.operand = .number k → exe.functions[k]? = some f → exe.Fits f.ty ty →
      Moves p exe current pc i (.plain tys) (.plain (tys ++ [ty]))
  | duplicate {pc : Nat} {i : Directive} {tys : List Ty} {ty ty' : Ty} :
      i.op = .duplicate → exe.Fits ty ty' →
      Moves p exe current pc i (.plain (tys ++ [ty])) (.plain (tys ++ [ty', ty]))
  | element {pc : Nat} {i : Directive} {kind : SlotKind} {tys : List Ty} {element index ty : Ty} :
      i.op = .pushArray kind → exe.Fits element ty →
      Moves p exe current pc i (.plain (tys ++ [.array element, index])) (.plain (tys ++ [ty]))
  | setElement {pc : Nat} {i : Directive} {kind : SlotKind} {tys : List Ty}
      {element index ty : Ty} :
      i.op = .popArray kind → exe.Fits ty element →
      Moves p exe current pc i (.plain (tys ++ [ty, .array element, index])) (.plain tys)
  | field {pc k : Nat} {i : Directive} {kind : SlotKind} {tys : List Ty} {object ty ty' : Ty} :
      i.op = .pushField kind → i.operand = .number k → exe.fieldTy? object k = some ty →
      exe.Fits ty ty' →
      Moves p exe current pc i (.plain (tys ++ [object])) (.plain (tys ++ [ty']))
  | setField {pc k : Nat} {i : Directive} {kind : SlotKind} {tys : List Ty} {object ty ty' : Ty} :
      i.op = .popField kind → i.operand = .number k → exe.fieldTy? object k = some ty' →
      exe.Fits ty ty' → Moves p exe current pc i (.plain (tys ++ [ty, object])) (.plain tys)
  | method {pc k : Nat} {i : Directive} {tys : List Ty} {object : Ty} :
      i.op = .pushMethod → i.operand = .number k →
      Moves p exe current pc i (.plain (tys ++ [object])) (.dispatch (tys ++ [object]) k)
  | call {pc : Nat} {callee : Expr} {args : List Expr} {tys params : List Ty} {result ty : Ty} :
      p.CallAt current pc callee args → callee.isMethod = false →
      callee.ty = .function result params → Forall₂ exe.Fits (args.map Expr.ty) params →
      exe.Fits result ty →
      Moves p exe current pc (.invoke args.length)
        (.plain (tys ++ args.map Expr.ty ++ [callee.ty])) (.plain (tys ++ [ty]))
  | callMethod {pc : Nat} {m : Mark} {object : Expr} {k : UInt16} {args : List Expr}
      {tys params : List Ty} {this ty : Ty} {f : Function} :
      p.CallAt current pc (.method m object k) args → exe.method? object.ty k.toNat = some f →
      f.paramTys = params ++ [this] → Forall₂ exe.Fits (args.map Expr.ty) params →
      exe.Fits f.returnType ty →
      Moves p exe current pc (.invoke (args.length + 1))
        (.dispatch (tys ++ args.map Expr.ty ++ [object.ty]) k.toNat) (.plain (tys ++ [ty]))
  | ret {pc : Nat} {i : Directive} {ty : Ty} : i.op = .ret →
      (∀ index f, current = some index → exe.functions[index]? = some f →
        exe.Fits ty f.returnType) →
      Moves p exe current pc i (.plain [ty]) (.plain [])
  | new {pc : Nat} {index : UInt16} {i : Directive} {tys : List Ty} {ty : Ty} :
      i.op = .new → i.operand = .number index.toNat → exe.Fits (.class index) ty →
      Moves p exe current pc i (.plain tys) (.plain (tys ++ [ty]))
  | newArray {pc : Nat} {i : Directive} {tys : List Ty} {element size : Ty} :
      i.op = .newArray element.slotKind →
      Moves p exe current pc i (.plain (tys ++ [size])) (.plain (tys ++ [.array element]))
  | arrayLiteral {pc : Nat} {i : Directive} {tys items : List Ty} {element : Ty} :
      i.op = .newArrayLiteral element.slotKind → items.length = i.args →
      (∀ item ∈ items, exe.Fits item element) →
      Moves p exe current pc i (.plain (tys ++ items)) (.plain (tys ++ [.array element]))
  | downCast {pc : Nat} {index : UInt16} {i : Directive} {tys : List Ty} {ty ty' : Ty} :
      i.op = .downCast → i.operand = .number index.toNat → exe.Fits (.class index) ty' →
      Moves p exe current pc i (.plain (tys ++ [ty])) (.plain (tys ++ [ty']))

/-! ### Sites and constructs -/

theorem Executable.HasSite.enter {exe : Executable} {current : Option Nat} {site : Site}
    (frame : exe.HasSite current site) (line : UInt32) :
  exe.HasSite current (site.enter line)
  := by
  unfold Site.enter
  split
  · exact frame
  · exact frame

/-- The constructs are some of the code of a function, or of the top level, and obey their rules. -/
def TypedSpots (p : Program) (exe : Executable) (current : Option Nat) (spots : List Spot) : Prop :=
  ∀ spot ∈ spots, spot ∈ p.spots current ∧ exe.TypesConstruct current spot.construct

namespace TypedSpots

variable {p : Program} {exe : Executable} {current : Option Nat} {spot : Spot}
  {spots spots' : List Spot}

theorem head (typed : TypedSpots p exe current (spot :: spots)) :
  spot ∈ p.spots current ∧ exe.TypesConstruct current spot.construct
  := typed spot List.mem_cons_self

theorem tail (typed : TypedSpots p exe current (spot :: spots)) :
  TypedSpots p exe current spots
  := fun other listed => typed other (List.mem_cons_of_mem _ listed)

theorem left (typed : TypedSpots p exe current (spots ++ spots')) :
  TypedSpots p exe current spots
  := fun other listed => typed other (List.mem_append_left _ listed)

theorem right (typed : TypedSpots p exe current (spots ++ spots')) :
  TypedSpots p exe current spots'
  := fun other listed => typed other (List.mem_append_right _ listed)

end TypedSpots

/-! ### Types of instructions -/

/-- Numbers and truth values may be used as each other. -/
theorem Executable.Fits.of_plain {exe : Executable} {ty ty' : Ty} (fits : exe.Fits ty ty')
    (noReference : ty.isReference = false) (noFunction : ty.isFunction = false) :
  exe.Fits .int ty'
  := by
  cases fits with
  | below below =>
    apply Fits.plain rfl
    · rw [below.isReference, noReference]
    · rw [below.isFunction, noFunction]
  | null => cases noReference
  | plain _ reference function => exact .plain rfl reference function

theorem Executable.Fits.isReference_of_null {exe : Executable} {ty : Ty}
    (fits : exe.Fits .null ty) :
  ty.isReference = true
  := by
  cases fits with
  | below below => exact below.isReference
  | null reference => exact reference
  | plain impossible => cases impossible

theorem Directive.makes?_int (value : Int64) :
  (Directive.int value).op.makes? = some .int
  := by
  unfold Directive.int
  split
  · rfl
  · split
    all_goals rfl

theorem Directive.makes?_double (value : Double) :
  (Directive.double value).op.makes? = some .int
  := by
  unfold Directive.double
  split
  · rfl
  · split
    all_goals rfl

theorem Gen.makes?_unaryOp (op : UnaryOp) (operand : Ty) :
  (Gen.unaryOp op operand).makes? = some .int
  := by
  cases op with
  | minus =>
    dsimp only [Gen.unaryOp]
    split
    all_goals rfl
  | not => rfl

theorem Gen.makes?_binaryOp {op : BinaryOp} (full : Gen.shortCut? op = none) (lhs rhs : Ty) :
  (Gen.binaryOp op lhs rhs).makes? = some (Gen.binaryOp op lhs rhs).result
  := by
  apply Gen.binaryOp_cases op lhs rhs fun op' => op'.makes? = some op'.result
  · exact fun _ => ⟨rfl, rfl⟩
  · exact fun _ => ⟨rfl, rfl, rfl⟩
  · exact ⟨rfl, rfl, rfl⟩
  · exact fun skips => absurd full skips

end Bytecode
