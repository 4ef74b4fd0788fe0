import Mathlib
import Bytecode.Proofs.Generate.Spots
import Bytecode.Proofs.Layout.Hierarchy

/-!
# Static types

What it means that a program is well typed with respect to the tables of its executable. The rule
for an expression relates the type that it carries to those of its immediate parts and to the
declarations that it refers to; the rule for a statement does so for what it stores or returns.
Whether a value of one type may be used as one of another is `Executable.Fits`: objects may be used
as objects of a superclass, null as any reference, and all that is neither a reference nor a
function is kept in the same way. A function type fits no other type.
-/

namespace Bytecode

open List (Forall₂)

def Ty.isFunction : Ty → Bool
  | .function _ _ => true
  | _ => false

/-- The type of what a conversion makes. -/
def Conversion.result : Conversion → Ty
  | .intToDouble => .double
  | .doubleToInt => .int
  | .booleanToString | .intToString | .doubleToString => .string

/-- The type of what an operator on two operands makes: all but the concatenation of strings make
numbers or truth values. -/
def Op.result (op : Op) : Ty := if op = .addString then .string else .int

def Expr.isMethod : Expr → Bool
  | .method _ _ _ => true
  | _ => false

def Function.paramTys (f : Function) : List Ty := f.params.map (·.ty)

/-- The type of a value that denotes the function. -/
def Function.ty (f : Function) : Ty := .function f.returnType f.paramTys

namespace Executable

variable (exe : Executable)

/-! ### Declarations -/

/-- The declared type of a parameter or local. -/
def slotTy? (current : Option Nat) (slot : Nat) : Option Ty :=
  (current.bind (exe.functions[·]?)).bind fun f => ((f.params ++ f.locals)[slot]?).map (·.ty)

def variableTy? (current : Option Nat) : Variable → Option Ty
  | .local slot => exe.slotTy? current slot.toNat
  | .global index => (exe.globals[index.toNat]?).map (·.ty)

/-- The class that a type names. -/
def classOf? (ty : Ty) : Option Class := ty.classIndex?.bind fun index => exe.classes[index.toNat]?

def fieldTy? (object : Ty) (index : Nat) : Option Ty :=
  (exe.classOf? object).bind fun c => (c.fields[index]?).map (·.ty)

/-- The function that an object of exactly the given class runs for a method slot. -/
def method? (object : Ty) (index : Nat) : Option Function :=
  ((exe.classOf? object).bind fun c => c.methods[index]?).bind fun method =>
    exe.functions[method.function.toNat]?

/-- The declared type of what can be assigned to. -/
def placeTy? (current : Option Nat) : Expr → Option Ty
  | .var _ place => exe.variableTy? current place
  | .index _ array _ => array.ty.element?
  | .field _ object i => exe.fieldTy? object.ty i.toNat
  | _ => none

/-! ### Use of one type as another -/

/-- Every object of the first type is one of the second. -/
inductive Below : Ty → Ty → Prop
  | refl (ty : Ty) : Below ty ty
  | parent {index parent : UInt16} {ty : Ty} :
      exe.superClass? index = some parent → Below (.class parent) ty → Below (.class index) ty

/-- A value of the first type may be used as one of the second. -/
inductive Fits : Ty → Ty → Prop
  | below {ty ty' : Ty} : exe.Below ty ty' → Fits ty ty'
  | null {ty : Ty} : ty.isReference = true → Fits .null ty
  | plain {ty ty' : Ty} : ty.isReference = false → ty'.isReference = false →
      ty'.isFunction = false → Fits ty ty'

/-! ### Rules -/

/-- A value of the type may be stored in the place. -/
def Stores (current : Option Nat) (target : Expr) (ty : Ty) : Prop :=
  ∃ ty', exe.placeTy? current target = some ty' ∧ exe.Fits ty ty'

/-- The rule for an expression of the code of a function, or of the top level. -/
inductive Types (current : Option Nat) : Expr → Prop
  | boolean {m : Mark} {value : Bool} : exe.Fits .boolean m.ty → Types current (.boolean m value)
  | int {m : Mark} {value : Int64} : exe.Fits .int m.ty → Types current (.int m value)
  | double {m : Mark} {value : Double} : exe.Fits .double m.ty → Types current (.double m value)
  | string {m : Mark} {value : String} : exe.Fits .string m.ty → Types current (.string m value)
  | null {m : Mark} : exe.Fits .null m.ty → Types current (.null m)
  | var {m : Mark} {place : Variable} {ty : Ty} : exe.variableTy? current place = some ty →
      exe.Fits ty m.ty → Types current (.var m place)
  | function {m : Mark} {i : UInt16} {f : Function} : exe.functions[i.toNat]? = some f →
      exe.Fits f.ty m.ty → Types current (.function m i)
  | assign {m : Mark} {target value : Expr} : exe.Stores current target value.ty →
      exe.Fits value.ty m.ty → Types current (.assign m target value)
  /-- The value is that of one of the operands. -/
  | shortCut {m : Mark} {op : BinaryOp} {lhs rhs : Expr} : Gen.shortCut? op ≠ none →
      lhs.ty = m.ty → rhs.ty = m.ty → Types current (.binary m op lhs rhs)
  | binary {m : Mark} {op : BinaryOp} {lhs rhs : Expr} : Gen.shortCut? op = none →
      exe.Fits (Gen.binaryOp op lhs.ty rhs.ty).result m.ty → Types current (.binary m op lhs rhs)
  | unary {m : Mark} {op : UnaryOp} {operand : Expr} : exe.Fits .int m.ty →
      Types current (.unary m op operand)
  | call {m : Mark} {callee : Expr} {args : List Expr} {result : Ty} {params : List Ty} :
      callee.isMethod = false → callee.ty = .function result params →
      Forall₂ exe.Fits (args.map Expr.ty) params → exe.Fits result m.ty →
      Types current (.call m callee args)
  /-- The object is passed behind the arguments. -/
  | methodCall {m m' : Mark} {object : Expr} {i : UInt16} {args : List Expr} {f : Function}
      {params : List Ty} {this : Ty} :
      exe.method? object.ty i.toNat = some f → f.paramTys = params ++ [this] →
      Forall₂ exe.Fits (args.map Expr.ty) params → exe.Fits f.returnType m.ty →
      Types current (.call m (.method m' object i) args)
  | index {m : Mark} {array i : Expr} {element : Ty} : array.ty = .array element →
      exe.Fits element m.ty → Types current (.index m array i)
  | field {m : Mark} {object : Expr} {i : UInt16} {ty : Ty} :
      exe.fieldTy? object.ty i.toNat = some ty → exe.Fits ty m.ty → Types current (.field m object i)
  | new {m : Mark} {index : UInt16} : exe.Fits (.class index) m.ty → Types current (.new m index)
  | newArray {m : Mark} {size : Expr} {element : Ty} : m.ty = .array element →
      Types current (.newArray m size)
  | arrayLiteral {m : Mark} {items : List Expr} {element : Ty} : m.ty = .array element →
      (∀ item ∈ items, exe.Fits item.ty element) → Types current (.arrayLiteral m items)
  | convert {m : Mark} {conversion : Conversion} {operand : Expr} :
      exe.Fits conversion.result m.ty → Types current (.convert m conversion operand)
  | downCast {m : Mark} {index : UInt16} {operand : Expr} : exe.Fits (.class index) m.ty →
      Types current (.downCast m index operand)
  | instanceOf {m : Mark} {index : UInt16} {operand : Expr} : exe.Fits .boolean m.ty →
      Types current (.instanceOf m index operand)
  | arrayLength {m : Mark} {array : Expr} : exe.Fits .int m.ty → Types current (.arrayLength m array)
  | stringLength {m : Mark} {text : Expr} : exe.Fits .int m.ty → Types current (.stringLength m text)

/-- The rule for an expression that is computed for its effect. -/
def TypesEffect (current : Option Nat) (e : Expr) : Prop :=
  ∀ m target value, e = .assign m target value → exe.Stores current target value.ty

/-- The rule for a statement. -/
def TypesStmt (current : Option Nat) : Stmt → Prop
  | .expression _ e => exe.TypesEffect current e
  | .declaration _ place _ (some initial) =>
    ∃ ty, exe.variableTy? current place = some ty ∧ exe.Fits initial.ty ty
  | .loop _ init _ post _ =>
    (∀ e, init = some e → exe.TypesEffect current e) ∧ ∀ e, post = some e → exe.TypesEffect current e
  | .ret _ (some value) =>
    ∀ index f, current = some index → exe.functions[index]? = some f →
      exe.Fits value.ty f.returnType
  | _ => True

/-- The rule for an expression or a statement. -/
def TypesConstruct (current : Option Nat) : Construct → Prop
  | .expr e => exe.Types current e
  | .stmt _ s => exe.TypesStmt current s

end Executable

/-- Every expression and every statement of the program obeys its rule. Native functions are not
declared to make function values, a class runs a method on its objects, and a method that takes the
place of an inherited one has its result and its parameters. -/
structure Program.WellTyped (p : Program) (exe : Executable) : Prop where
  constructs : ∀ current, ∀ spot ∈ p.spots current, exe.TypesConstruct current spot.construct
  natives : ∀ (index : Nat) f, exe.functions[index]? = some f → f.isNative = true →
    f.returnType.isFunction = false
  receivers : ∀ index i f, exe.method? (.class index) i = some f →
    ∃ params this, f.paramTys = params ++ [this] ∧ exe.Below (.class index) this
  overrides : ∀ index ancestor i f g, exe.Below (.class index) (.class ancestor) →
    exe.method? (.class ancestor) i = some f → exe.method? (.class index) i = some g →
    g.returnType = f.returnType ∧ g.paramTys.dropLast = f.paramTys.dropLast

/-! ### What types below others have -/

namespace Executable

variable {exe : Executable} {ty ty' ty'' : Ty}

theorem Below.trans (first : exe.Below ty ty') (second : exe.Below ty' ty'') :
  exe.Below ty ty''
  := by
  induction first with
  | refl => exact second
  | parent up _ ih => exact .parent up (ih second)

/-- Only a type of references is above one. -/
theorem Below.isReference (below : exe.Below ty ty') :
  ty'.isReference = ty.isReference
  := by
  induction below with
  | refl => rfl
  | parent _ _ ih => exact ih

theorem Below.isFunction (below : exe.Below ty ty') :
  ty'.isFunction = ty.isFunction
  := by
  induction below with
  | refl => rfl
  | parent _ _ ih => exact ih

/-- Only a class is above a class. -/
theorem Below.class_above {index : UInt16} (below : exe.Below (.class index) ty) :
  ∃ index', ty = .class index'
  := by
  generalize from_ : Ty.class index = ty₀ at below
  induction below generalizing index with
  | refl => exact ⟨index, from_.symm⟩
  | parent _ _ ih => exact ih rfl

theorem Below.of_array {element : Ty} (below : exe.Below ty (.array element)) :
  ty = .array element
  := by
  cases below with
  | refl => rfl
  | parent _ above =>
    obtain ⟨_, impossible⟩ := above.class_above
    cases impossible

/-- What is met on the way up from a class is above it. -/
theorem below_of_reaches {ancestor index : UInt16} {steps : Nat}
    (reaches : exe.reaches ancestor steps index = true) :
  exe.Below (.class index) (.class ancestor)
  := by
  induction steps generalizing index with
  | zero =>
    obtain rfl := eq_of_beq reaches
    exact .refl _
  | succ steps ih =>
    rcases (Bool.or_eq_true ..).mp reaches with same | further
    · obtain rfl := eq_of_beq same
      exact .refl _
    · cases up : exe.superClass? index with
      | none => simp [up] at further
      | some parent =>
          rw [up] at further
          exact .parent up (ih further)

theorem Fits.refl (ty : Ty) :
  exe.Fits ty ty
  := .below (.refl ty)

/-- What is used as a function value has exactly the type of it. -/
theorem Fits.eq_of_isFunction (fits : exe.Fits ty ty') (function : ty'.isFunction = true) :
  ty = ty'
  := by
  cases fits with
  | below below =>
    cases below with
    | refl => rfl
    | parent _ below =>
      rw [below.isFunction] at function
      cases function
  | null reference =>
    cases ty' with
    | function result params => cases reference
    | _ => cases function
  | plain _ _ none =>
    rw [none] at function
    cases function

/-- A class starts with the fields of its superclass. -/
theorem fieldTy?_of_parent {p : Program} (compiled : CompiledFrom p exe) {index parent : UInt16}
    (up : exe.superClass? index = some parent) {i : Nat}
    (declared : exe.fieldTy? (.class parent) i = some ty) :
  exe.fieldTy? (.class index) i = some ty
  := by
  obtain ⟨known, sound, -, final⟩ := Layouts.exists_known compiled.classes
  obtain ⟨c, found, child⟩ := Option.bind_eq_some_iff.1 up
  obtain ⟨c', found', field⟩ := Option.bind_eq_some_iff.1 declared
  change exe.classes[parent.toNat]? = some c' at found'
  obtain ⟨decl, inherited, -, handedDown, laidOut⟩ := sound.laidOut index.toNat c (by
    rw [final, Array.getElem?_toList, found])
  rw [← laidOut.superClass, child] at handedDown
  obtain ⟨c'', known', rfl⟩ := Option.map_eq_some_iff.1 handedDown
  obtain rfl : c' = c'' := by
    rw [final, Array.getElem?_toList, found'] at known'
    exact Option.some.inj known'
  have fields : c.fields = c'.fields ++ declaredFields decl.members := laidOut.members.fields
  refine Option.bind_eq_some_iff.2 ⟨c, found, ?_⟩
  obtain ⟨field', there, rfl⟩ := Option.map_eq_some_iff.1 field
  have inside := (List.getElem?_eq_some_iff.1 there).1
  rw [fields, List.getElem?_append_left inside, there]
  rfl

/-- A field of a class is one of every class below it. -/
theorem Below.fieldTy? {p : Program} (compiled : CompiledFrom p exe) {object object' : Ty}
    (below : exe.Below object object') {i : Nat} (declared : exe.fieldTy? object' i = some ty) :
  exe.fieldTy? object i = some ty
  := by
  induction below with
  | refl => exact declared
  | parent up _ ih => exact fieldTy?_of_parent compiled up (ih declared)

end Executable

end Bytecode
