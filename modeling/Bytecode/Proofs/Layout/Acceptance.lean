import Mathlib
import Bytecode.Proofs.Layout.Hierarchy

/-!
# Which hierarchies can be laid out

`Program.SoundHierarchy` says of the declarations of a program, without regard to any layout, that
superclasses exist and do not form a cycle, that methods have functions, and that no member clashes
with one that is inherited or declared earlier. Exactly these programs can be laid out.
-/

namespace Bytecode

open Relation (TransGen)

/-! ### Sound hierarchies -/

/-- A field may not have the name of an earlier member, nor a method that of an earlier field. -/
def MemberDecl.Clashes (earlier : MemberDecl) : MemberDecl → Prop
  | .field name _ _ => earlier.name = name
  | .method name _ _ => earlier.name = name ∧ earlier.field?.isSome

namespace Program

def Declares (p : Program) (index : Nat) (member : MemberDecl) : Prop :=
  ∃ decl, p.classes[index]? = some decl ∧ member ∈ decl.members

/-- The class inherits the member from one of its ancestors. -/
def Inherits (p : Program) (index : Nat) (member : MemberDecl) : Prop :=
  ∃ ancestor, p.Ancestor index ancestor ∧ p.Declares ancestor member

/-- Superclasses exist and do not form a cycle, methods have functions, and no member clashes with
one that is inherited or declared earlier in the same class. -/
structure SoundHierarchy (p : Program) : Prop where
  inRange : ∀ index parent, p.Parent index parent → parent < p.classes.length
  acyclic : ∀ index, ¬p.Ancestor index index
  functions : ∀ index name f position, p.Declares index (.method name f position) →
    f.toNat < p.functions.length
  distinct : ∀ index decl before member after, p.classes[index]? = some decl →
    decl.members = before ++ member :: after →
    ∀ earlier, p.Inherits index earlier ∨ earlier ∈ before → ¬earlier.Clashes member

end Program

/-! ### Members that are admitted -/

namespace Members

variable {inherited ms : Members} {earlier : MemberDecl → Prop} {before : List MemberDecl}
  {member : MemberDecl} {count : Nat} {className : String}

/-- The names of the members are those of the given declarations. -/
structure Holds (earlier : MemberDecl → Prop) (ms : Members) : Prop where
  field : ∀ name, name ∈ ms.fieldNames ↔ ∃ ty position, earlier (.field name ty position)
  method : ∀ name, name ∈ ms.methodNames ↔ ∃ f position, earlier (.method name f position)

theorem holds_empty :
  Holds (fun _ => False) {}
  := ⟨by simp [fieldNames], by simp [methodNames]⟩

theorem mem_declaredFields {name : String} :
  name ∈ (declaredFields before).map (·.name)
    ↔ ∃ ty position, MemberDecl.field name ty position ∈ before
  := by
  simp only [declaredFields, List.mem_map, List.mem_filterMap]
  constructor
  · rintro ⟨v, ⟨member, listed, isField⟩, rfl⟩
    cases member with
    | field name ty position =>
      cases isField
      exact ⟨ty, position, listed⟩
    | method => cases isField
  · rintro ⟨ty, position, listed⟩
    exact ⟨⟨name, ty⟩, ⟨_, listed, rfl⟩, rfl⟩

theorem mem_declaredMethods {name : String} :
  name ∈ (declaredMethods before).map (·.name)
    ↔ ∃ f position, MemberDecl.method name f position ∈ before
  := by
  simp only [declaredMethods, List.mem_map, List.mem_filterMap]
  constructor
  · rintro ⟨m, ⟨member, listed, isMethod⟩, rfl⟩
    cases member with
    | field => cases isMethod
    | method name f position =>
      cases isMethod
      exact ⟨f, position, listed⟩
  · rintro ⟨f, position, listed⟩
    exact ⟨⟨name, f⟩, ⟨_, listed, rfl⟩, rfl⟩

/-- The members of a class have the names of those that it inherits and of those that it declares. -/
theorem Extends.holds (extended : inherited.Extends before ms) (held : inherited.Holds earlier) :
  ms.Holds fun member => earlier member ∨ member ∈ before
  := by
  constructor
  · intro name
    rw [fieldNames, extended.fields, List.map_append, List.mem_append, mem_declaredFields]
    simp only [exists_or]
    exact or_congr_left (held.field name)
  · intro name
    have mem_newNames : name ∈ inherited.methodNames ++ inherited.newNames before
        ↔ name ∈ inherited.methodNames ∨ name ∈ (declaredMethods before).map (·.name) := by
      rw [List.mem_append, newNames, List.mem_eraseDups, List.removeAll, List.mem_filter]
      by_cases old : name ∈ inherited.methodNames
      · simp [old]
      · simp [old]
    rw [extended.methodNames, mem_newNames, mem_declaredMethods]
    simp only [exists_or]
    exact or_congr_left (held.method name)

/-- The member clashes with none of the earlier ones, and has a function if it is a method. -/
structure Admits (count : Nat) (earlier : MemberDecl → Prop) (member : MemberDecl) : Prop where
  distinct : ∀ other, earlier other → ¬other.Clashes member
  function : ∀ name f position, member = .method name f position → f.toNat < count

theorem admits_iff :
  Admits count earlier member ↔ (¬∃ other, earlier other ∧ other.Clashes member)
    ∧ ∀ name f position, member = .method name f position → f.toNat < count
  := by
  constructor
  · rintro ⟨distinct, function⟩
    exact ⟨by simpa using distinct, function⟩
  · rintro ⟨distinct, function⟩
    exact ⟨by simpa using distinct, function⟩

/-- A member is added exactly if it is admitted. -/
theorem exists_add_iff (held : ms.Holds earlier) :
  (∃ ms', ms.add count className member = .ok ms') ↔ Admits count earlier member
  := by
  cases member with
  | field name ty position =>
    have clash : (∃ other, earlier other ∧ other.Clashes (.field name ty position))
        ↔ name ∈ ms.fieldNames ∨ name ∈ ms.methodNames := by
      rw [held.field, held.method]
      constructor
      · rintro ⟨other, before, clashes⟩
        cases other with
        | field other ty position => exact .inl ⟨ty, position, clashes ▸ before⟩
        | method other f position => exact .inr ⟨f, position, clashes ▸ before⟩
      · rintro (⟨ty, position, before⟩ | ⟨f, position, before⟩)
        · exact ⟨_, before, rfl⟩
        · exact ⟨_, before, rfl⟩
    rw [admits_iff, clash, add, ← hasField_iff, ← hasMethod_iff]
    split
    · next found => simp [found]
    · next noField =>
        split
        · next found => simp [found]
        · next noMethod => simp [noField, noMethod]
  | method name f position =>
    have clash : (∃ other, earlier other ∧ other.Clashes (.method name f position))
        ↔ name ∈ ms.fieldNames := by
      rw [held.field]
      constructor
      · rintro ⟨other, before, same, isField⟩
        cases other with
        | field other ty position => exact ⟨ty, position, same ▸ before⟩
        | method => cases isField
      · rintro ⟨ty, position, before⟩
        exact ⟨_, before, rfl, rfl⟩
    rw [admits_iff, clash, add, ← hasField_iff]
    split
    · next large => simp [Nat.not_lt.2 large]
    · next small =>
        split
        · next found => simp [found]
        · next noField => simp [noField, Nat.lt_of_not_le small]

/-- The members of a class are added exactly if each of them is admitted after those before it. -/
theorem exists_addAll_iff {after : List MemberDecl} (held : inherited.Holds earlier)
    (extended : inherited.Extends before ms) (distinct : ms.Distinct) :
  (∃ ms', addAll count className after ms = .ok ms')
    ↔ ∀ between member rest, after = between ++ member :: rest →
      Admits count (fun other => earlier other ∨ other ∈ before ++ between) member
  := by
  induction after generalizing before ms with
  | nil => simp [addAll]
  | cons first rest ih =>
    have added : (∃ ms', ms.add count className first = .ok ms')
        ↔ Admits count (fun other => earlier other ∨ other ∈ before) first :=
      exists_add_iff (extended.holds held)
    constructor
    · rintro ⟨ms', run⟩ between member rest' split
      unfold addAll at run
      split at run
      · cases run
      · next ms₁ run₁ =>
          obtain ⟨extended₁, distinct₁⟩ := add_eq_ok extended distinct run₁
          cases between with
          | nil =>
            obtain ⟨rfl, rfl⟩ := List.cons.inj split
            rw [List.append_nil]
            exact added.1 ⟨ms₁, run₁⟩
          | cons other between =>
            obtain ⟨rfl, later⟩ := List.cons.inj split
            rw [List.append_cons]
            exact (ih extended₁ distinct₁).1 ⟨ms', run⟩ between member rest' later
    · intro admitted
      have here := admitted [] first rest rfl
      rw [List.append_nil] at here
      obtain ⟨ms₁, run₁⟩ := added.2 here
      obtain ⟨extended₁, distinct₁⟩ := add_eq_ok extended distinct run₁
      unfold addAll
      rw [run₁]
      apply (ih extended₁ distinct₁).2
      intro between member rest' split
      have later := admitted (first :: between) member rest' (by rw [split]; rfl)
      rwa [List.append_cons] at later

/-- A member that is not admitted is not reported as a cycle. -/
theorem addAll_ne_cycle {members : List MemberDecl} {name : String} {position : Position} :
  addAll count className members ms ≠ .error ⟨.classHierarchyCycle name, position⟩
  := by
  induction members generalizing ms with
  | nil =>
    intro failed
    cases failed
  | cons member rest ih =>
    intro failed
    unfold addAll at failed
    split at failed
    · next defect raised =>
        injection failed with failed
        injection failed with same
        subst same
        cases member with
        | field | method =>
          rw [add] at raised
          split at raised
          · cases raised
          · split at raised
            all_goals cases raised
    · exact ih failed

end Members

namespace Program

variable {p : Program} {index : Nat} {decl : ClassDecl} {member : MemberDecl}

theorem declares_iff (declared : p.classes[index]? = some decl) :
  p.Declares index member ↔ member ∈ decl.members
  := by
  simp [Declares, declared]

theorem not_inherits_of_root (declared : p.classes[index]? = some decl)
    (root : decl.superClass = none) :
  ¬p.Inherits index member
  := by
  rintro ⟨ancestor, chain, -⟩
  obtain ⟨parent, ⟨decl', named, declared', child, -⟩, -⟩ := TransGen.head'_iff.1 chain
  rw [declared] at declared'
  cases declared'
  rw [root] at child
  cases child

/-- A class inherits what its superclass inherits or declares. -/
theorem inherits_iff (declared : p.classes[index]? = some decl) {parent : UInt16}
    (child : decl.superClass = some parent) :
  p.Inherits index member ↔ p.Inherits parent.toNat member ∨ p.Declares parent.toNat member
  := by
  have up : p.Parent index parent.toNat := ⟨decl, parent, declared, child, rfl⟩
  constructor
  · rintro ⟨ancestor, chain, here⟩
    obtain ⟨next, ⟨decl', named, declared', child', rfl⟩, rest⟩ := TransGen.head'_iff.1 chain
    rw [declared] at declared'
    cases declared'
    rw [child] at child'
    cases child'
    rcases Relation.reflTransGen_iff_eq_or_transGen.1 rest with rfl | rest
    · exact .inr here
    · exact .inl ⟨ancestor, rest, here⟩
  · rintro (⟨ancestor, chain, here⟩ | here)
    · exact ⟨ancestor, .head up chain, here⟩
    · exact ⟨parent.toNat, .single up, here⟩

end Program

namespace Layouts

variable {p : Program} {known known' : Layouts} {index : Nat} {decl : ClassDecl} {c : Class}
  {inherited : Members} {below : List Nat}
variable {result : Except CompileError (Class × Layouts)} {decls : List ClassDecl}

/-! ### The members of known layouts -/

/-- What a class starts with has the names of what it inherits, if this is so of its superclass. -/
theorem holds_inherited (declared : p.classes[index]? = some decl)
    (found : inherited? known.find? decl.superClass = some inherited)
    (superClass : ∀ parent c, decl.superClass = some parent → known.find? parent.toNat = some c →
      c.members.Holds fun member => p.Inherits parent.toNat member ∨ p.Declares parent.toNat member) :
  inherited.Holds (p.Inherits index)
  := by
  cases child : decl.superClass with
  | none =>
    rw [child] at found
    cases found
    have none (member : MemberDecl) : p.Inherits index member = False :=
      eq_false (Program.not_inherits_of_root declared child)
    rw [funext none]
    exact Members.holds_empty
  | some parent =>
    rw [child] at found
    obtain ⟨c, there, rfl⟩ := Option.map_eq_some_iff.1 found
    have same (member : MemberDecl) : p.Inherits index member
        = (p.Inherits parent.toNat member ∨ p.Declares parent.toNat member) :=
      propext (Program.inherits_iff declared child)
    rw [funext same]
    exact superClass parent c child there

/-- The members of a class with a layout have the names of what it inherits and declares. -/
theorem Sound.holds (sound : Sound p.classes.toArray known) (there : known.find? index = some c) :
  c.members.Holds fun member => p.Inherits index member ∨ p.Declares index member
  := by
  obtain ⟨rank, lower⟩ := sound.ranked
  induction rankOf : rank index using Nat.strongRecOn generalizing index c with
  | ind _ ih =>
    obtain ⟨decl, inherited, declared, found, laidOut⟩ := sound.laidOut index c there
    rw [List.getElem?_toArray] at declared
    have handedDown : inherited.Holds (p.Inherits index) := by
      apply holds_inherited declared found
      intro parent superClass child there'
      have less := lower index c parent there (laidOut.superClass.trans child)
      exact ih _ (rankOf ▸ less) there' rfl
    rw [funext fun member => propext (or_congr_right (Program.declares_iff declared))]
    exact laidOut.members.holds handedDown

/-- What is known once the superclass of a class has been laid out. -/
theorem Walks.handsDown {known known₁ : Layouts} {superDecl : ClassDecl} {parent : UInt16}
    {superClass : Class} (sound : Sound p.classes.toArray known)
    (child : decl.superClass = some parent) (found : p.classes[parent.toNat]? = some superDecl)
    (walks : Walks p (index :: below) parent.toNat superDecl known (.ok (superClass, known₁))) :
  Sound p.classes.toArray known₁
    ∧ inherited? known₁.find? decl.superClass = some superClass.members
  := by
  obtain ⟨sound₁, -, there, -⟩ := walks.sound rfl sound found
  refine ⟨sound₁, ?_⟩
  rw [child]
  exact Option.map_eq_some_iff.2 ⟨superClass, there, rfl⟩

/-! ### Adding a class -/

/-- Every member of a class is admitted after those that are inherited and those before it. -/
def Admitted (p : Program) (index : Nat) : Prop :=
  ∀ decl before member after, p.classes[index]? = some decl →
    decl.members = before ++ member :: after →
    Members.Admits p.functions.length (fun other => p.Inherits index other ∨ other ∈ before) member

theorem addClass_eq (count index : Nat) (decl : ClassDecl) (inherited : Members) (known : Layouts) :
  addClass count index decl inherited known
    = match Members.addAll count decl.name decl.members inherited with
      | .error e => .error e
      | .ok ms =>
        let c : Class := ⟨decl.name, decl.package, decl.superClass, ms.fields, ms.methods⟩
        .ok (c, known.setIfInBounds index (some c))
  := by
  unfold addClass
  cases Members.addAll count decl.name decl.members inherited with
  | error e => rfl
  | ok ms => rfl

section

variable (sound : Sound p.classes.toArray known) (declared : p.classes[index]? = some decl)
  (found : inherited? known.find? decl.superClass = some inherited)
include sound declared found

/-- On top of known layouts, the members of a class are added exactly if each of them is admitted
after those that are inherited and those before it. -/
theorem Sound.exists_addAll_iff {count : Nat} :
  (∃ ms, Members.addAll count decl.name decl.members inherited = .ok ms)
    ↔ ∀ before member after, decl.members = before ++ member :: after →
      Members.Admits count (fun other => p.Inherits index other ∨ other ∈ before) member
  := by
  have handedDown := holds_inherited declared found fun parent c _ there => sound.holds there
  exact Members.exists_addAll_iff handedDown (.refl inherited) (sound.distinct_inherited found)

theorem Sound.exists_addClass (admitted : Admitted p index) :
  ∃ laid, addClass p.functions.length index decl inherited known = .ok laid
  := by
  obtain ⟨ms, run⟩ := (sound.exists_addAll_iff declared found).2 fun before member after =>
    admitted decl before member after declared
  rw [addClass_eq, run]
  exact ⟨_, rfl⟩

theorem Sound.admitted_addClass (old : ∀ k c, known.find? k = some c → Admitted p k)
    (added : addClass p.functions.length index decl inherited known = .ok (c, known')) :
  ∀ k c, known'.find? k = some c → Admitted p k
  := by
  rw [addClass_eq] at added
  split at added
  · cases added
  · next ms all =>
      cases added
      intro k c' there
      rw [find?_set] at there
      split at there
      · next here =>
          obtain ⟨rfl, -⟩ := here
          intro decl' before member after declared' members
          rw [declared] at declared'
          cases declared'
          exact (sound.exists_addAll_iff declared found).1 ⟨ms, all⟩ before member after members
      · exact old k c' there

end

theorem addClass_ne_cycle {count : Nat} {name : String} {position : Position} :
  addClass count index decl inherited known ≠ .error ⟨.classHierarchyCycle name, position⟩
  := by
  intro failed
  rw [addClass_eq] at failed
  split at failed
  · next raised =>
      cases failed
      exact Members.addAll_ne_cycle raised
  · cases failed

/-! ### What comes of the way up -/

section

variable {known : Layouts} (walks : Walks p below index decl known result)
include walks

/-- A class of a sound hierarchy is laid out. -/
theorem Walks.exists_ok (hierarchy : p.SoundHierarchy) (admitted : ∀ index, Admitted p index)
    (sound : Sound p.classes.toArray known) (path : Path p below index)
    (declared : p.classes[index]? = some decl) :
  ∃ laid, result = .ok laid
  := by
  induction walks with
  | known there => exact ⟨_, rfl⟩
  | cycle unknown met => exact absurd (path.leads _ met) (hierarchy.acyclic _)
  | root unknown fresh root =>
    apply sound.exists_addClass declared _ (admitted _)
    rw [root]
    rfl
  | missing unknown fresh child missing =>
    have inside := hierarchy.inRange _ _ ⟨_, _, declared, child, rfl⟩
    rw [List.getElem?_eq_none_iff] at missing
    omega
  | failed unknown fresh child found _ ih =>
    obtain ⟨laid, impossible⟩ := ih sound (path.up declared fresh child) found
    cases impossible
  | child unknown fresh child found walks _ =>
    obtain ⟨sound₁, handedDown⟩ := walks.handsDown sound child found
    exact sound₁.exists_addClass declared handedDown (admitted _)

/-- Classes that have been laid out have members that are admitted. -/
theorem Walks.admitted (laid : result = .ok (c, known')) (sound : Sound p.classes.toArray known)
    (declared : p.classes[index]? = some decl)
    (old : ∀ k c, known.find? k = some c → Admitted p k) :
  ∀ k c, known'.find? k = some c → Admitted p k
  := by
  induction walks generalizing c known' with
  | known there =>
    cases laid
    exact old
  | cycle | missing | failed => cases laid
  | root unknown fresh root =>
    refine sound.admitted_addClass declared ?_ old laid
    rw [root]
    rfl
  | child unknown fresh child found walks ih =>
    obtain ⟨sound₁, handedDown⟩ := walks.handsDown sound child found
    exact sound₁.admitted_addClass declared handedDown (ih rfl sound found old) laid

/-- A class that is reported as part of a cycle is its own ancestor. -/
theorem Walks.exists_cycle {name : String} {position : Position}
    (reported : result = .error ⟨.classHierarchyCycle name, position⟩) (path : Path p below index)
    (declared : p.classes[index]? = some decl) :
  ∃ k decl, p.classes[k]? = some decl ∧ decl.name = name ∧ decl.position = position
    ∧ p.Ancestor k k
  := by
  induction walks with
  | known | missing => cases reported
  | @cycle _ index decl _ unknown met =>
    cases reported
    exact ⟨index, decl, declared, rfl, rfl, path.leads _ met⟩
  | root | child => exact absurd reported addClass_ne_cycle
  | failed unknown fresh child found _ ih => exact ih reported (path.up declared fresh child) found

end

/-! ### All classes -/

theorem layoutFrom_cons (p : Program) (index : Nat) (decl : ClassDecl) (decls : List ClassDecl)
    (known : Layouts) :
  layoutFrom p p.classes.toArray index (decl :: decls) known
    = match layout p p.classes.toArray p.classes.length [] index decl known with
      | .error e => .error e
      | .ok (first, known₁) =>
        match layoutFrom p p.classes.toArray (index + 1) decls known₁ with
        | .error e => .error e
        | .ok others => .ok (first :: others)
  := by
  rw [layoutFrom, List.size_toArray]
  cases layout p p.classes.toArray p.classes.length [] index decl known with
  | error e => rfl
  | ok laid =>
    obtain ⟨first, known₁⟩ := laid
    change (layoutFrom p p.classes.toArray (index + 1) decls known₁ >>= _) = _
    dsimp only
    cases layoutFrom p p.classes.toArray (index + 1) decls known₁ with
    | error e => rfl
    | ok others => rfl

/-- The classes of a sound hierarchy are laid out. -/
theorem Sound.exists_layoutFrom (hierarchy : p.SoundHierarchy)
    (admitted : ∀ index, Admitted p index) (sound : Sound p.classes.toArray known)
    (listed : From p index decls) :
  ∃ classes, Layouts.layoutFrom p p.classes.toArray index decls known = .ok classes
  := by
  induction decls generalizing index known with
  | nil => exact ⟨[], rfl⟩
  | cons decl rest ih =>
    have declared : p.classes[index]? = some decl := listed 0
    obtain ⟨⟨first, known₁⟩, laid⟩ := (walks_first declared known).exists_ok hierarchy admitted
      sound (.nil p index) declared
    obtain ⟨sound₁, -⟩ := (walks_first declared known).sound laid sound declared
    obtain ⟨others, laid'⟩ := ih sound₁ listed.tail
    rw [layoutFrom_cons, laid]
    dsimp only
    rw [laid']
    exact ⟨_, rfl⟩

/-- Once classes have been laid out, their members are admitted. -/
theorem Sound.admitted_of_layoutFrom {classes : List Class}
    (sound : Sound p.classes.toArray known) (old : ∀ k c, known.find? k = some c → Admitted p k)
    (listed : From p index decls)
    (laid : Layouts.layoutFrom p p.classes.toArray index decls known = .ok classes) :
  ∀ k, k < decls.length → Admitted p (index + k)
  := by
  induction decls generalizing index known classes with
  | nil => exact fun k impossible => absurd impossible (Nat.not_lt_zero k)
  | cons decl rest ih =>
    have declared : p.classes[index]? = some decl := listed 0
    obtain ⟨first, others, known₁, rfl, laid₁, laid₂⟩ := layoutFrom_cons_eq_ok laid
    have new := (walks_first declared known).admitted laid₁ sound declared old
    obtain ⟨sound₁, -, there, -⟩ := (walks_first declared known).sound laid₁ sound declared
    rintro (_ | k) inside
    · exact new index first there
    · rw [Nat.add_comm k, ← Nat.add_assoc]
      exact ih sound₁ new listed.tail laid₂ k (Nat.lt_of_succ_lt_succ inside)

/-- If classes cannot be laid out, this is so of one of them. -/
theorem exists_of_layoutFrom_eq_error {e : CompileError} (listed : From p index decls)
    (failed : layoutFrom p p.classes.toArray index decls known = .error e) :
  ∃ k decl known, p.classes[k]? = some decl
    ∧ layout p p.classes.toArray p.classes.length [] k decl known = .error e
  := by
  induction decls generalizing index known with
  | nil => cases failed
  | cons decl rest ih =>
    rw [layoutFrom_cons] at failed
    split at failed
    · next first =>
        cases failed
        exact ⟨index, decl, known, listed 0, first⟩
    · next known₁ _ =>
        split at failed
        · next later =>
            cases failed
            exact ih listed.tail later
        · cases failed

end Layouts

namespace Program

variable {p : Program}

theorem from_zero (p : Program) :
  Layouts.From p 0 p.classes
  := fun k => by rw [Nat.zero_add]

theorem SoundHierarchy.admitted (hierarchy : p.SoundHierarchy) (index : Nat) :
  Layouts.Admitted p index
  := by
  intro decl before member after declared members
  refine ⟨hierarchy.distinct index decl before member after declared members, ?_⟩
  rintro name f position rfl
  apply hierarchy.functions index name f position
  rw [declares_iff declared, members]
  exact List.mem_append_right _ List.mem_cons_self

/-- A hierarchy that has been laid out is sound. -/
theorem soundHierarchy_of_layoutClasses {classes : List Class}
    (laid : layoutClasses p = .ok classes) :
  p.SoundHierarchy
  := by
  obtain ⟨known, sound, length, final⟩ := Layouts.exists_known laid
  have admitted : ∀ index, index < p.classes.length → Layouts.Admitted p index := by
    intro index inside
    rw [← Nat.zero_add index]
    exact (Layouts.sound_empty p.classes.toArray).admitted_of_layoutFrom
      (fun k c there => absurd there (Layouts.find?_replicate_ne _ k c)) p.from_zero laid index inside
  obtain ⟨rank, lower⟩ := sound.ranked
  -- Every class of the program has a layout, on top of that of its superclass.
  have ranked : ∀ index parent, p.Parent index parent →
      parent < p.classes.length ∧ rank parent < rank index := by
    rintro index _ ⟨decl, parent, declared, child, rfl⟩
    have inside : index < classes.length := by
      rw [length]
      exact (List.getElem?_eq_some_iff.1 declared).1
    have there : known.find? index = some classes[index] := by
      rw [final, List.getElem?_eq_getElem inside]
    obtain ⟨decl', inherited, declared', -, laidOut⟩ := sound.laidOut index _ there
    rw [List.getElem?_toArray, declared] at declared'
    cases declared'
    have child' := laidOut.superClass.trans child
    obtain ⟨superClass, above⟩ := sound.exists_parent there child'
    rw [final] at above
    refine ⟨?_, lower index _ parent there child'⟩
    rw [← length]
    exact (List.getElem?_eq_some_iff.1 above).1
  constructor
  case inRange => exact fun index parent up => (ranked index parent up).1
  case acyclic =>
    have less : ∀ index ancestor, p.Ancestor index ancestor → rank ancestor < rank index := by
      intro index ancestor chain
      induction chain with
      | single up => exact (ranked _ _ up).2
      | tail _ up ih => exact (ranked _ _ up).2.trans ih
    exact fun index chain => Nat.lt_irrefl _ (less index index chain)
  case functions =>
    rintro index name f position ⟨decl, declared, listed⟩
    obtain ⟨before, after, members⟩ := List.append_of_mem listed
    have inside := (List.getElem?_eq_some_iff.1 declared).1
    exact (admitted index inside decl before _ after declared members).function name f position rfl
  case distinct =>
    intro index decl before member after declared members
    have inside := (List.getElem?_eq_some_iff.1 declared).1
    exact (admitted index inside decl before member after declared members).distinct

end Program

/-- The classes of a program can be laid out exactly if their hierarchy is sound. Whatever is known
already, the way up from a class comes to an end within as many steps as there are classes; and if a
class is reported as part of a cycle, it is a class of the program that is its own ancestor. -/
theorem layoutClasses_accepts (p : Program) :
  ((∃ classes, layoutClasses p = .ok classes) ↔ p.SoundHierarchy)
    ∧ (∀ index decl known, p.classes[index]? = some decl →
        Layouts.Walks p [] index decl known
          (Layouts.layout p p.classes.toArray p.classes.length [] index decl known))
    ∧ (∀ name position, layoutClasses p = .error ⟨.classHierarchyCycle name, position⟩ →
        ∃ index decl, p.classes[index]? = some decl ∧ decl.name = name
          ∧ decl.position = position ∧ p.Ancestor index index)
  := by
  refine ⟨⟨?_, ?_⟩, ?_, ?_⟩
  · rintro ⟨classes, laid⟩
    exact Program.soundHierarchy_of_layoutClasses laid
  · intro hierarchy
    exact (Layouts.sound_empty p.classes.toArray).exists_layoutFrom hierarchy hierarchy.admitted
      p.from_zero
  · exact fun index decl known declared => Layouts.walks_first declared known
  · intro name position failed
    obtain ⟨index, decl, known, declared, failed⟩ :=
      Layouts.exists_of_layoutFrom_eq_error p.from_zero failed
    exact (Layouts.walks_first declared known).exists_cycle failed (.nil p index) declared

end Bytecode
