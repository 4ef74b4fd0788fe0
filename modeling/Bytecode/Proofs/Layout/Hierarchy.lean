import Mathlib
import Bytecode.Proofs.Layout.Members

/-!
# The layout of a class hierarchy

Layouts are computed as they are needed, and kept. `Layouts.Sound` says of the layouts known so
far that each extends the members of its superclass, which has its final layout already. A class
on the way up to the one that is laid out gets no layout meanwhile, so no layout is overwritten,
and all classes of a program in the end have the layout that their declarations ask for.

The way up from a class is a `Layouts.Path`: it has no class twice, and all classes on it are
descendants of the one that it has come to. So it is no longer than there are classes, and a class
that it comes back to is its own ancestor.
-/

namespace Bytecode

open Relation (TransGen)

def Class.members (c : Class) : Members := ⟨c.fields, c.methods⟩

/-- The members that a class with a superclass starts with, given the layouts of classes. -/
def inherited? (look : Nat → Option Class) : Option UInt16 → Option Members
  | none => some {}
  | some parent => (look parent.toNat).map Class.members

/-- The layout of a class is what its declaration asks for, given the members that it inherits. -/
structure Class.LaidOut (decl : ClassDecl) (inherited : Members) (c : Class) : Prop where
  name : c.name = decl.name
  package : c.package = decl.package
  superClass : c.superClass = decl.superClass
  members : inherited.Extends decl.members c.members
  distinct : c.members.Distinct

namespace Program

/-- The class with the first index names the second index as its superclass. -/
def Parent (p : Program) (index parent : Nat) : Prop :=
  ∃ decl named, p.classes[index]? = some decl ∧ decl.superClass = some named ∧ named.toNat = parent

/-- The second class is a proper ancestor of the first one. -/
def Ancestor (p : Program) : Nat → Nat → Prop := TransGen p.Parent

end Program

namespace Layouts

variable {p : Program} {table : Array ClassDecl} {known known' : Layouts} {index : Nat}
  {decl : ClassDecl} {c : Class} {inherited : Members}

theorem find?_set (known : Layouts) (index k : Nat) (c : Class) :
  find? (known.setIfInBounds index (some c)) k
    = if index = k ∧ index < known.size then some c else known.find? k
  := by
  unfold find?
  rw [Array.getElem?_setIfInBounds]
  by_cases same : index = k
  · subst same
    by_cases inside : index < known.size
    · simp [inside]
    · simp [inside]
  · simp [same]

/-- No layout has been changed. -/
def Keeps (known known' : Layouts) : Prop :=
  ∀ index c, known.find? index = some c → known'.find? index = some c

theorem Keeps.refl (known : Layouts) :
  known.Keeps known
  := fun _ _ found => found

theorem Keeps.trans {known₁ known₂ known₃ : Layouts} (first : known₁.Keeps known₂)
    (second : known₂.Keeps known₃) :
  known₁.Keeps known₃
  := fun index c found => second index c (first index c found)

theorem Keeps.inherited? (keeps : known.Keeps known') {parent : Option UInt16}
    (found : Bytecode.inherited? known.find? parent = some inherited) :
  Bytecode.inherited? known'.find? parent = some inherited
  := by
  cases parent with
  | none => exact found
  | some parent =>
    obtain ⟨superClass, there, rfl⟩ := Option.map_eq_some_iff.1 found
    exact Option.map_eq_some_iff.2 ⟨superClass, keeps _ _ there, rfl⟩

/-- Every known layout is that of its declaration, on top of the layout of the superclass. Classes
can be ranked so that superclasses come first. -/
structure Sound (table : Array ClassDecl) (known : Layouts) : Prop where
  size_eq : known.size = table.size
  laidOut : ∀ index c, known.find? index = some c →
    ∃ decl inherited, table[index]? = some decl
      ∧ inherited? known.find? decl.superClass = some inherited ∧ c.LaidOut decl inherited
  ranked : ∃ rank : Nat → Nat, ∀ index c parent, known.find? index = some c →
    c.superClass = some parent → rank parent.toNat < rank index

theorem find?_replicate_ne (size index : Nat) (c : Class) :
  find? (Array.replicate size none) index ≠ some c
  := by
  intro found
  unfold find? at found
  rw [Array.getElem?_replicate] at found
  split at found
  all_goals cases found

theorem sound_empty (table : Array ClassDecl) :
  Sound table (Array.replicate table.size none)
  := by
  refine ⟨Array.size_replicate, ?_, fun _ => 0, ?_⟩
  · exact fun index c found => absurd found (find?_replicate_ne _ index c)
  · exact fun index c _ found => absurd found (find?_replicate_ne _ index c)

/-- What a superclass hands down has no two members of one name. -/
theorem Sound.distinct_inherited (sound : Sound table known) {parent : Option UInt16}
    (found : inherited? known.find? parent = some inherited) :
  inherited.Distinct
  := by
  cases parent with
  | none =>
    cases found
    exact List.nodup_nil
  | some parent =>
    obtain ⟨superClass, there, rfl⟩ := Option.map_eq_some_iff.1 found
    obtain ⟨decl, inherited, -, -, laidOut⟩ := sound.laidOut _ _ there
    exact laidOut.distinct

/-- The superclass of a class with a layout has one. -/
theorem Sound.exists_parent (sound : Sound table known) {parent : UInt16}
    (there : known.find? index = some c) (child : c.superClass = some parent) :
  ∃ superClass, known.find? parent.toNat = some superClass
  := by
  obtain ⟨decl, inherited, -, found, laidOut⟩ := sound.laidOut index c there
  rw [← laidOut.superClass, child] at found
  obtain ⟨superClass, there', -⟩ := Option.map_eq_some_iff.1 found
  exact ⟨superClass, there'⟩

/-- A class without a layout is ranked above its superclass, which has one. -/
theorem Sound.ranked_set (sound : Sound table known) (unknown : known.find? index = none)
    (found : inherited? known.find? c.superClass = some inherited) :
  ∃ rank : Nat → Nat, ∀ k other parent,
    find? (known.setIfInBounds index (some c)) k = some other → other.superClass = some parent →
    rank parent.toNat < rank k
  := by
  obtain ⟨rank, lower⟩ := sound.ranked
  have ne {k : Nat} {other : Class} (there : known.find? k = some other) : k ≠ index := by
    rintro rfl
    rw [unknown] at there
    cases there
  refine ⟨Function.update rank index
    ((c.superClass.map fun parent => rank parent.toNat).getD 0 + 1), ?_⟩
  intro k other parent there child
  rw [find?_set] at there
  split at there
  · next here =>
      obtain ⟨rfl, -⟩ := here
      cases there
      rw [child] at found
      obtain ⟨superClass, there, -⟩ := Option.map_eq_some_iff.1 found
      rw [Function.update_self, Function.update_of_ne (ne there), child]
      exact Nat.lt_succ_self _
  · obtain ⟨superClass, there'⟩ := sound.exists_parent there child
    rw [Function.update_of_ne (ne there'), Function.update_of_ne (ne there)]
    exact lower k other parent there child

/-- A class without a layout gets one, on top of that of its superclass. -/
theorem Sound.set (sound : Sound table known) (declared : table[index]? = some decl)
    (unknown : known.find? index = none)
    (found : inherited? known.find? decl.superClass = some inherited)
    (laidOut : c.LaidOut decl inherited) :
  Sound table (known.setIfInBounds index (some c)) ∧ known.Keeps (known.setIfInBounds index (some c))
  := by
  have keeps : known.Keeps (known.setIfInBounds index (some c)) := by
    intro k other there
    have ne : index ≠ k := by
      rintro rfl
      rw [unknown] at there
      cases there
    rw [find?_set, if_neg fun both => ne both.1, there]
  have ranked := sound.ranked_set (c := c) unknown (by rw [laidOut.superClass, found])
  refine ⟨⟨by rw [Array.size_setIfInBounds, sound.size_eq], ?_, ranked⟩, keeps⟩
  intro k other there
  rw [find?_set] at there
  split at there
  · next here =>
      obtain ⟨rfl, -⟩ := here
      cases there
      exact ⟨decl, inherited, declared, keeps.inherited? found, laidOut⟩
  · obtain ⟨decl', inherited', declared', found', laidOut'⟩ := sound.laidOut k other there
    exact ⟨decl', inherited', declared', keeps.inherited? found', laidOut'⟩

theorem addClass_eq_ok {count : Nat} (distinct : inherited.Distinct)
    (added : addClass count index decl inherited known = .ok (c, known')) :
  c.LaidOut decl inherited ∧ known' = known.setIfInBounds index (some c)
  := by
  unfold addClass at added
  cases members : Members.addAll count decl.name decl.members inherited with
  | error e =>
    rw [members] at added
    cases added
  | ok ms =>
    rw [members] at added
    cases added
    obtain ⟨extended, distinct'⟩ := Members.addAll_eq_ok (.refl inherited) distinct members
    exact ⟨⟨rfl, rfl, rfl, extended, distinct'⟩, rfl⟩

/-! ### The way up -/

/-- What comes of laying out a class, given the classes on the way up to it: it has a layout, or is
one of those classes, or is laid out after its superclass, if it has one. -/
inductive Walks (p : Program) :
    List Nat → Nat → ClassDecl → Layouts → Except CompileError (Class × Layouts) → Prop
  | known {below : List Nat} {index : Nat} {decl : ClassDecl} {known : Layouts} {c : Class} :
      known.find? index = some c → Walks p below index decl known (.ok (c, known))
  | cycle {below : List Nat} {index : Nat} {decl : ClassDecl} {known : Layouts} :
      known.find? index = none → index ∈ below →
      Walks p below index decl known (.error ⟨.classHierarchyCycle decl.name, decl.position⟩)
  | root {below : List Nat} {index : Nat} {decl : ClassDecl} {known : Layouts} :
      known.find? index = none → index ∉ below → decl.superClass = none →
      Walks p below index decl known (addClass p.functions.length index decl {} known)
  | missing {below : List Nat} {index : Nat} {decl : ClassDecl} {known : Layouts}
        {parent : UInt16} :
      known.find? index = none → index ∉ below → decl.superClass = some parent →
      p.classes[parent.toNat]? = none →
      Walks p below index decl known (.error ⟨.unknownClass parent, decl.position⟩)
  | failed {below : List Nat} {index : Nat} {decl superDecl : ClassDecl} {known : Layouts}
        {parent : UInt16} {e : CompileError} :
      known.find? index = none → index ∉ below → decl.superClass = some parent →
      p.classes[parent.toNat]? = some superDecl →
      Walks p (index :: below) parent.toNat superDecl known (.error e) →
      Walks p below index decl known (.error e)
  | child {below : List Nat} {index : Nat} {decl superDecl : ClassDecl} {known known₁ : Layouts}
        {parent : UInt16} {superClass : Class} :
      known.find? index = none → index ∉ below → decl.superClass = some parent →
      p.classes[parent.toNat]? = some superDecl →
      Walks p (index :: below) parent.toNat superDecl known (.ok (superClass, known₁)) →
      Walks p below index decl known
        (addClass p.functions.length index decl superClass.members known₁)

/-- The classes on the way up to a class are different ones of the program and its descendants. -/
structure Path (p : Program) (below : List Nat) (index : Nat) : Prop where
  nodup : below.Nodup
  inside : ∀ k ∈ below, k < p.classes.length
  leads : ∀ k ∈ below, p.Ancestor k index

theorem Path.nil (p : Program) (index : Nat) :
  Path p [] index
  := ⟨List.nodup_nil, by simp, by simp⟩

section

variable {below : List Nat} (path : Path p below index) (declared : p.classes[index]? = some decl)
include path declared

theorem Path.up (fresh : index ∉ below) {parent : UInt16} (child : decl.superClass = some parent) :
  Path p (index :: below) parent.toNat
  := by
  have up : p.Parent index parent.toNat := ⟨decl, parent, declared, child, rfl⟩
  refine ⟨List.nodup_cons.2 ⟨fresh, path.nodup⟩, ?_, ?_⟩
  · intro k listed
    rcases List.mem_cons.1 listed with rfl | listed
    · exact (List.getElem?_eq_some_iff.1 declared).1
    · exact path.inside k listed
  · intro k listed
    rcases List.mem_cons.1 listed with rfl | listed
    · exact .single up
    · exact (path.leads k listed).tail up

/-- The way up to a class that it has not met yet is shorter than there are classes. -/
theorem Path.length_lt (fresh : index ∉ below) :
  below.length < p.classes.length
  := by
  have inside : index :: below ⊆ List.range p.classes.length := by
    intro k listed
    rw [List.mem_range]
    rcases List.mem_cons.1 listed with rfl | listed
    · exact (List.getElem?_eq_some_iff.1 declared).1
    · exact path.inside k listed
  have short := (List.subperm_of_subset (List.nodup_cons.2 ⟨fresh, path.nodup⟩) inside).length_le
  simpa using short

/-- The way up comes to an end within as many steps as there are classes. -/
theorem walks_layout {fuel : Nat} (enough : p.classes.length ≤ fuel + below.length)
    (known : Layouts) :
  Walks p below index decl known (layout p p.classes.toArray fuel below index decl known)
  := by
  induction fuel generalizing below index decl with
  | zero =>
    unfold layout
    split
    · next there => exact .known there
    · next unknown =>
        split
        · next met => exact .cycle unknown (by simpa using met)
        · next fresh =>
            have short := path.length_lt declared (by simpa using fresh)
            omega
  | succ fuel ih =>
    unfold layout
    split
    · next there => exact .known there
    · next unknown =>
        split
        · next met => exact .cycle unknown (by simpa using met)
        · next fresh =>
            have fresh : index ∉ below := by simpa using fresh
            split
            · next root => exact .root unknown fresh root
            · next impossible => cases impossible
            · next parent rest child same =>
                cases same
                split
                · next missing => exact .missing unknown fresh child (by simpa using missing)
                · next superDecl found =>
                    rw [List.getElem?_toArray] at found
                    have walks := ih (path.up declared fresh child) found
                      (by rw [List.length_cons]; omega)
                    split
                    · next failed => exact .failed unknown fresh child found (failed ▸ walks)
                    · next superClass known₁ laid =>
                        exact .child unknown fresh child found (laid ▸ walks)

end

/-- The way up from a class with which it begins. -/
theorem walks_first (declared : p.classes[index]? = some decl) (known : Layouts) :
  Walks p [] index decl known (layout p p.classes.toArray p.classes.length [] index decl known)
  := walks_layout (.nil p index) declared (Nat.le_refl _) known

/-! ### Laying out a class -/

/-- A class without a layout is added on top of its superclass. -/
theorem Sound.of_addClass {count : Nat} (sound : Sound table known)
    (declared : table[index]? = some decl) (unknown : known.find? index = none)
    (found : inherited? known.find? decl.superClass = some inherited)
    (added : addClass count index decl inherited known = .ok (c, known')) :
  Sound table known' ∧ known.Keeps known' ∧ known'.find? index = some c
    ∧ ∀ k, k ≠ index → known'.find? k = known.find? k
  := by
  obtain ⟨laidOut, rfl⟩ := addClass_eq_ok (sound.distinct_inherited found) added
  obtain ⟨sound', keeps⟩ := sound.set declared unknown found laidOut
  have inside : index < known.size := by
    rw [sound.size_eq]
    exact (Array.getElem?_eq_some_iff.1 declared).1
  refine ⟨sound', keeps, by rw [find?_set, if_pos ⟨rfl, inside⟩], ?_⟩
  intro k ne
  rw [find?_set, if_neg fun both => ne both.1.symm]

/-- A class has been laid out. Those on the way up to it have not. -/
theorem Walks.sound {below : List Nat} {result : Except CompileError (Class × Layouts)}
    (walks : Walks p below index decl known result) (laid : result = .ok (c, known'))
    (sound : Sound p.classes.toArray known) (declared : p.classes[index]? = some decl) :
  Sound p.classes.toArray known' ∧ known.Keeps known' ∧ known'.find? index = some c
    ∧ ∀ k ∈ below, known'.find? k = known.find? k
  := by
  have ne {k index : Nat} {below : List Nat} (listed : k ∈ below) (fresh : index ∉ below) :
      k ≠ index := fun same => fresh (same ▸ listed)
  induction walks generalizing c known' with
  | known there =>
    cases laid
    exact ⟨sound, .refl _, there, fun _ _ => rfl⟩
  | cycle | missing | failed => cases laid
  | root unknown fresh root =>
    obtain ⟨sound', keeps, there, same⟩ := sound.of_addClass (by rwa [List.getElem?_toArray]) unknown
      (by rw [root]; rfl) laid
    exact ⟨sound', keeps, there, fun k listed => same k (ne listed fresh)⟩
  | child unknown fresh child found _ ih =>
    -- What is known when the class is added: its superclass, but not the class itself.
    obtain ⟨sound₁, keeps₁, there₁, same₁⟩ := ih rfl sound found
    obtain ⟨sound', keeps, there, same⟩ := sound₁.of_addClass (by rwa [List.getElem?_toArray])
      ((same₁ _ List.mem_cons_self).trans unknown)
      (by rw [child]; exact Option.map_eq_some_iff.2 ⟨_, there₁, rfl⟩) laid
    refine ⟨sound', keeps₁.trans keeps, there, ?_⟩
    exact fun k listed =>
      (same k (ne listed fresh)).trans (same₁ k (List.mem_cons_of_mem _ listed))

/-! ### Laying out all classes -/

/-- The classes of a table from an index on. -/
def From (p : Program) (index : Nat) (decls : List ClassDecl) : Prop :=
  ∀ k, p.classes[index + k]? = decls[k]?

theorem From.tail (listed : From p index (decl :: decls)) :
  From p (index + 1) decls
  := by
  intro k
  rw [Nat.add_assoc, Nat.add_comm 1]
  exact listed (k + 1)

theorem layoutFrom_cons_eq_ok {decls : List ClassDecl} {classes : List Class}
    (laid : layoutFrom p p.classes.toArray index (decl :: decls) known = .ok classes) :
  ∃ first others known₁, classes = first :: others
    ∧ layout p p.classes.toArray p.classes.length [] index decl known = .ok (first, known₁)
    ∧ layoutFrom p p.classes.toArray (index + 1) decls known₁ = .ok others
  := by
  simp only [layoutFrom, bind, Except.bind] at laid
  split at laid
  · cases laid
  · next result laid₁ =>
      obtain ⟨first, known₁⟩ := result
      split at laid
      · cases laid
      · next others laid₂ =>
          cases laid
          exact ⟨first, others, known₁, rfl, laid₁, laid₂⟩

/-- The classes from an index on have been laid out. -/
theorem Sound.layoutFrom {decls : List ClassDecl} {classes : List Class}
    (sound : Sound p.classes.toArray known) (listed : From p index decls)
    (laid : layoutFrom p p.classes.toArray index decls known = .ok classes) :
  ∃ known', Sound p.classes.toArray known' ∧ known.Keeps known' ∧ classes.length = decls.length
    ∧ ∀ k c, classes[k]? = some c → known'.find? (index + k) = some c
  := by
  induction decls generalizing index known classes with
  | nil =>
    cases laid
    refine ⟨known, sound, .refl known, rfl, ?_⟩
    intro k c found
    cases found
  | cons decl rest ih =>
    obtain ⟨first, others, known₁, rfl, laid₁, laid₂⟩ := layoutFrom_cons_eq_ok laid
    have declared : p.classes[index]? = some decl := listed 0
    obtain ⟨sound₁, keeps₁, found₁, -⟩ := (walks_first declared known).sound laid₁ sound declared
    obtain ⟨known', sound', keeps', length, found'⟩ := ih sound₁ listed.tail laid₂
    refine ⟨known', sound', keeps₁.trans keeps', by simp [length], ?_⟩
    intro k c found
    cases k with
    | zero =>
      cases found
      exact keeps' _ _ found₁
    | succ k =>
      rw [Nat.add_comm k, ← Nat.add_assoc]
      exact found' k c found

/-- When all classes of a program have been laid out, the layouts known are those of the list. -/
theorem exists_known {classes : List Class} (laid : layoutClasses p = .ok classes) :
  ∃ known, Sound p.classes.toArray known ∧ classes.length = p.classes.length
    ∧ ∀ k, known.find? k = classes[k]?
  := by
  obtain ⟨known, sound, -, length, found⟩ := (sound_empty p.classes.toArray).layoutFrom
    (fun k => by rw [Nat.zero_add]) laid
  simp only [Nat.zero_add] at found
  refine ⟨known, sound, length, ?_⟩
  intro k
  by_cases inside : k < classes.length
  · rw [found k _ (List.getElem?_eq_getElem inside), List.getElem?_eq_getElem inside]
  · rw [List.getElem?_eq_none (Nat.not_lt.1 inside)]
    cases known' : known.find? k with
    | none => rfl
    | some c =>
      -- A class that has a layout is in the table.
      obtain ⟨decl, -, declared, -⟩ := sound.laidOut k c known'
      rw [List.getElem?_toArray] at declared
      exact absurd (List.getElem?_eq_some_iff.1 declared).1 (by omega)

end Layouts

/-- When all classes of a program are laid out, there is one class for each declaration, in the
same order. It starts with the members of its superclass, if it has one, and goes on with its
own; all its members have different names. -/
theorem layoutClasses_eq_ok {p : Program} {classes : List Class}
    (laid : layoutClasses p = .ok classes) :
  classes.length = p.classes.length
    ∧ ∀ (index : Nat) (c : Class), classes[index]? = some c →
      ∃ decl inherited, p.classes[index]? = some decl
        ∧ inherited? (classes[·]?) decl.superClass = some inherited
        ∧ c.LaidOut decl inherited
  := by
  obtain ⟨known, sound, length, final⟩ := Layouts.exists_known laid
  refine ⟨length, ?_⟩
  intro index c there
  rw [← final] at there
  obtain ⟨decl, inherited, declared, handedDown, laidOut⟩ := sound.laidOut index c there
  rw [List.getElem?_toArray] at declared
  rw [funext final] at handedDown
  exact ⟨decl, inherited, declared, handedDown, laidOut⟩

/-! ### An instance -/

/-- A class in front of its superclass, which declares an inherited method twice. -/
def squareOfShape : Program where
  classes := [
    { name := "Square", superClass := some 1, members := [
        .method "area" 1 {}, .field "side" .int {}, .method "scale" 2 {}, .method "area" 3 {}] },
    { name := "Shape", members := [
        .field "name" .string {}, .method "area" 0 {}, .method "describe" 4 {}] }]
  functions := List.replicate 5 { name := "f", returnType := .void, params := [], body := none }

def squareClass : Class where
  name := "Square"
  package := ""
  superClass := some 1
  fields := [⟨"name", .string⟩, ⟨"side", .int⟩]
  methods := [⟨"area", 3⟩, ⟨"describe", 4⟩, ⟨"scale", 2⟩]

def shapeClass : Class where
  name := "Shape"
  package := ""
  superClass := none
  fields := [⟨"name", .string⟩]
  methods := [⟨"area", 0⟩, ⟨"describe", 4⟩]

theorem layoutClasses_squareOfShape :
  layoutClasses squareOfShape = .ok [squareClass, shapeClass]
    ∧ ∃ decl inherited, squareOfShape.classes[0]? = some decl
      ∧ inherited? ([squareClass, shapeClass][·]?) decl.superClass = some inherited
      ∧ squareClass.LaidOut decl inherited
  := by
  have laid : layoutClasses squareOfShape = .ok [squareClass, shapeClass] := by cbv
  exact ⟨laid, (layoutClasses_eq_ok laid).2 0 squareClass rfl⟩

end Bytecode
