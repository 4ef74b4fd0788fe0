import Mathlib
import Bytecode.Layout

/-!
# The members of a class

`Members.Extends` says what the flattened members of a class are, given those that it inherits
and its own declarations: the fields are the inherited ones and then the declared ones, the
method slots are the inherited ones and then one for every new name, and in each slot is the
function that was declared last for it, or else the inherited one. Adding a member keeps it, and
keeps the names of all members different.
-/

namespace Bytecode

/-! ### Declared members -/

namespace MemberDecl

def field? : MemberDecl → Option VariableDecl
  | .field name ty _ => some ⟨name, ty⟩
  | .method .. => none

def method? : MemberDecl → Option Method
  | .field .. => none
  | .method name function _ => some ⟨name, function⟩

end MemberDecl

/-- The declared fields in source order. -/
def declaredFields (members : List MemberDecl) : List VariableDecl :=
  members.filterMap MemberDecl.field?

/-- The declared methods in source order, with all declarations of a name. -/
def declaredMethods (members : List MemberDecl) : List Method :=
  members.filterMap MemberDecl.method?

section

variable (members : List MemberDecl) (name : String) (ty : Ty) (f : UInt16) (position : Position)

@[simp] theorem declaredFields_field :
  declaredFields (members ++ [.field name ty position]) = declaredFields members ++ [⟨name, ty⟩]
  := List.filterMap_append

@[simp] theorem declaredFields_method :
  declaredFields (members ++ [.method name f position]) = declaredFields members
  := List.filterMap_append.trans (List.append_nil _)

@[simp] theorem declaredMethods_field :
  declaredMethods (members ++ [.field name ty position]) = declaredMethods members
  := List.filterMap_append.trans (List.append_nil _)

@[simp] theorem declaredMethods_method :
  declaredMethods (members ++ [.method name f position]) = declaredMethods members ++ [⟨name, f⟩]
  := List.filterMap_append

end

/-- The function of the last declaration of a method. -/
def lastDeclared? (members : List MemberDecl) (name : String) : Option UInt16 :=
  ((declaredMethods members).findRev? fun m => m.name = name).map (·.function)

theorem lastDeclared?_field (members : List MemberDecl) (name other : String) (ty : Ty)
    (position : Position) :
  lastDeclared? (members ++ [.field name ty position]) other = lastDeclared? members other
  := by
  rw [lastDeclared?, declaredMethods_field, lastDeclared?]

theorem lastDeclared?_method (members : List MemberDecl) (name other : String) (f : UInt16)
    (position : Position) :
  lastDeclared? (members ++ [.method name f position]) other
    = if name = other then some f else lastDeclared? members other
  := by
  simp only [lastDeclared?, declaredMethods_method, List.findRev?_eq_find?_reverse,
    List.reverse_append]
  by_cases same : name = other
  · simp [same]
  · simp [same]

namespace Members

variable {inherited ms ms' : Members} {declared : List MemberDecl} {member : MemberDecl}
  {count : Nat} {className : String}
variable {name : String} {f : UInt16}

def fieldNames (ms : Members) : List String := ms.fields.map (·.name)

def methodNames (ms : Members) : List String := ms.methods.map (·.name)

theorem hasField_iff :
  ms.hasField name = true ↔ name ∈ ms.fieldNames
  := by
  simp [hasField, fieldNames]

theorem hasMethod_iff :
  ms.hasMethod name = true ↔ name ∈ ms.methodNames
  := by
  simp [hasMethod, methodNames]

/-- All members have different names, be they fields or methods. -/
def Distinct (ms : Members) : Prop := (ms.fieldNames ++ ms.methodNames).Nodup

/-- The declared methods that take a new slot, in the order of their first declarations. -/
def newNames (inherited : Members) (declared : List MemberDecl) : List String :=
  (((declaredMethods declared).map (·.name)).removeAll inherited.methodNames).eraseDups

theorem newNames_method (inherited : Members) (declared : List MemberDecl) (name : String)
    (f : UInt16) (position : Position) :
  inherited.newNames (declared ++ [.method name f position])
    = inherited.newNames declared
      ++ if name ∈ inherited.methodNames ++ inherited.newNames declared then [] else [name]
  := by
  unfold newNames
  rw [declaredMethods_method, List.map_append, List.map_singleton, List.removeAll,
    List.filter_append, List.eraseDups_append]
  congr 1
  by_cases old : name ∈ inherited.methodNames
  · simp [old]
  · by_cases again : ∃ m ∈ declaredMethods declared, m.name = name
    · simp [List.removeAll, old, again]
    · simp [List.removeAll, List.eraseDups_cons, old, again]

/-- What the members of a class are, given those that it inherits and its declarations. -/
structure Extends (inherited : Members) (declared : List MemberDecl) (ms : Members) : Prop where
  fields : ms.fields = inherited.fields ++ declaredFields declared
  methodNames : ms.methodNames = inherited.methodNames ++ inherited.newNames declared
  declaredFunction : ∀ (k : Nat) (m : Method) (f : UInt16), ms.methods[k]? = some m →
    lastDeclared? declared m.name = some f → m.function = f
  inheritedFunction : ∀ (k : Nat) (m : Method), ms.methods[k]? = some m →
    lastDeclared? declared m.name = none → inherited.methods[k]? = some m

theorem Extends.refl (ms : Members) :
  ms.Extends [] ms
  := by
  refine ⟨(List.append_nil _).symm, (List.append_nil _).symm, ?_, ?_⟩
  · intro k m f _ impossible
    cases impossible
  · intro k m found _
    exact found

/-! ### Method slots -/

theorem map_name_setMethod (name : String) (f : UInt16) (methods : List Method) :
  (setMethod name f methods).map (·.name)
    = methods.map (·.name) ++ if name ∈ methods.map (·.name) then [] else [name]
  := by
  induction methods with
  | nil => simp [setMethod]
  | cons m rest ih =>
    unfold setMethod
    split
    · next same => simp [same]
    · next other => simp [ih, Ne.symm other]

/-- A slot has the function that was put into it, or has stayed as it was. -/
theorem getElem?_setMethod {methods : List Method} (distinct : (methods.map (·.name)).Nodup)
    {k : Nat} {m : Method} (found : (setMethod name f methods)[k]? = some m) :
  m = ⟨name, f⟩ ∨ m.name ≠ name ∧ methods[k]? = some m
  := by
  induction methods generalizing k with
  | nil =>
    obtain rfl : ⟨name, f⟩ = m := List.mem_singleton.1 (List.mem_of_getElem? found) |>.symm
    exact .inl rfl
  | cons first rest ih =>
    rw [List.map_cons, List.nodup_cons] at distinct
    unfold setMethod at found
    split at found
    · next same =>
        cases k with
        | zero =>
          cases found
          exact .inl rfl
        | succ k =>
          refine .inr ⟨?_, found⟩
          rintro again
          apply distinct.1
          rw [same, ← again]
          exact List.mem_map_of_mem (List.mem_of_getElem? found)
    · next other =>
        cases k with
        | zero =>
          cases found
          exact .inr ⟨other, rfl⟩
        | succ k => exact ih distinct.2 found

/-! ### Adding members -/

theorem Extends.addField {ty : Ty} {position : Position}
    (extended : inherited.Extends declared ms) :
  inherited.Extends (declared ++ [.field name ty position])
    { ms with fields := ms.fields ++ [⟨name, ty⟩] }
  where
  fields := by
    rw [declaredFields_field, ← List.append_assoc, ← extended.fields]
  methodNames := by
    rw [newNames, declaredMethods_field]
    exact extended.methodNames
  declaredFunction k m f found last := by
    rw [lastDeclared?_field] at last
    exact extended.declaredFunction k m f found last
  inheritedFunction k m found last := by
    rw [lastDeclared?_field] at last
    exact extended.inheritedFunction k m found last

theorem Extends.addMethod {position : Position} (extended : inherited.Extends declared ms)
    (distinct : ms.methodNames.Nodup) :
  inherited.Extends (declared ++ [.method name f position])
    { ms with methods := setMethod name f ms.methods }
  where
  fields := by
    rw [declaredFields_method]
    exact extended.fields
  methodNames := by
    rw [newNames_method, ← List.append_assoc, ← extended.methodNames]
    exact map_name_setMethod name f ms.methods
  declaredFunction k m g found last := by
    rw [lastDeclared?_method] at last
    rcases getElem?_setMethod distinct found with rfl | ⟨other, there⟩
    · rw [if_pos rfl] at last
      cases last
      rfl
    · rw [if_neg (Ne.symm other)] at last
      exact extended.declaredFunction k m g there last
  inheritedFunction k m found last := by
    rw [lastDeclared?_method] at last
    rcases getElem?_setMethod distinct found with rfl | ⟨other, there⟩
    · rw [if_pos rfl] at last
      cases last
    · rw [if_neg (Ne.symm other)] at last
      exact extended.inheritedFunction k m there last

theorem Distinct.addField {ty : Ty} (distinct : ms.Distinct) (noField : name ∉ ms.fieldNames)
    (noMethod : name ∉ ms.methodNames) :
  Distinct { ms with fields := ms.fields ++ [⟨name, ty⟩] }
  := by
  have fresh : (name :: (ms.fieldNames ++ ms.methodNames)).Nodup :=
    List.nodup_cons.2 ⟨by simp [noField, noMethod], distinct⟩
  have moved : (ms.fieldNames ++ name :: ms.methodNames).Nodup :=
    (List.perm_middle.nodup_iff).2 fresh
  simpa [Distinct, fieldNames, methodNames] using moved

theorem Distinct.addMethod (distinct : ms.Distinct) (noField : name ∉ ms.fieldNames) :
  Distinct { ms with methods := setMethod name f ms.methods }
  := by
  change (ms.fieldNames ++ (setMethod name f ms.methods).map (·.name)).Nodup
  rw [map_name_setMethod, ← List.append_assoc]
  split
  · rw [List.append_nil]
    exact distinct
  · next noMethod =>
      apply List.Nodup.append distinct (List.nodup_singleton name)
      intro other listed same
      obtain rfl := List.mem_singleton.1 same
      rcases List.mem_append.1 listed with inFields | inMethods
      · exact noField inFields
      · exact noMethod inMethods

/-- One more declaration. -/
theorem add_eq_ok (extended : inherited.Extends declared ms) (distinct : ms.Distinct)
    (added : ms.add count className member = .ok ms') :
  inherited.Extends (declared ++ [member]) ms' ∧ ms'.Distinct
  := by
  cases member with
  | field name ty position =>
    rw [add] at added
    split at added
    · cases added
    · next noField =>
        split at added
        · cases added
        · next noMethod =>
            cases added
            rw [hasField_iff] at noField
            rw [hasMethod_iff] at noMethod
            exact ⟨extended.addField, distinct.addField noField noMethod⟩
  | method name f position =>
    rw [add] at added
    split at added
    · cases added
    · split at added
      · cases added
      · next noField =>
          cases added
          rw [hasField_iff] at noField
          exact ⟨extended.addMethod distinct.of_append_right, distinct.addMethod noField⟩

/-- All declarations of a class. -/
theorem addAll_eq_ok {before after : List MemberDecl} (extended : inherited.Extends before ms)
    (distinct : ms.Distinct) (added : addAll count className after ms = .ok ms') :
  inherited.Extends (before ++ after) ms' ∧ ms'.Distinct
  := by
  induction after generalizing before ms with
  | nil =>
    cases added
    rw [List.append_nil]
    exact ⟨extended, distinct⟩
  | cons member rest ih =>
    unfold addAll at added
    split at added
    · cases added
    · next ms₁ added₁ =>
        obtain ⟨extended₁, distinct₁⟩ := add_eq_ok extended distinct added₁
        rw [List.append_cons]
        exact ih extended₁ distinct₁ added

end Members

end Bytecode
