import Mathlib
import Bytecode.Proofs.Layout.Hierarchy

/-!
# Subclasses and dynamic dispatch

In a table of classes that have been laid out no class is its own ancestor: every class has a
height that is more than that of its superclass and at most the size of the table. So the search
for an ancestor ends, `Executable.search_isSubclass`, and finds exactly the classes on the chain of
superclasses, `Executable.isSubclass_iff`.

A subclass has the members of its ancestors in the slots where these have them. The function in a
method slot is the one that the name of the method stands for in the class, `Program.Resolves`.
-/

namespace Bytecode

/-- The function that a method name stands for in a class: the one that the class has declared
last under the name, or else the one that the name stands for in the superclass. -/
inductive Program.Resolves (p : Program) (name : String) : Nat → UInt16 → Prop
  | declared {index : Nat} {decl : ClassDecl} {f : UInt16} :
      p.classes[index]? = some decl → lastDeclared? decl.members name = some f →
      Resolves p name index f
  | inherited {index : Nat} {decl : ClassDecl} {parent f : UInt16} :
      p.classes[index]? = some decl → lastDeclared? decl.members name = none →
      decl.superClass = some parent → Resolves p name parent.toNat f → Resolves p name index f

namespace Executable

/-- The first class is a class of the table, and the second one its superclass. -/
def Parent (exe : Executable) (index parent : UInt16) : Prop := exe.superClass? index = some parent

/-- What the search for an ancestor answers that goes up from a class until it meets the ancestor
or there is no superclass. Every class on the way is one of the table. -/
inductive Search (exe : Executable) (ancestor : UInt16) : UInt16 → Bool → Prop
  | found {c : Class} : exe.classes[ancestor.toNat]? = some c → Search exe ancestor ancestor true
  | top {index : UInt16} {c : Class} :
      index ≠ ancestor → exe.classes[index.toNat]? = some c → c.superClass = none →
      Search exe ancestor index false
  | up {index parent : UInt16} {c : Class} {answer : Bool} :
      index ≠ ancestor → exe.classes[index.toNat]? = some c → c.superClass = some parent →
      Search exe ancestor parent answer → Search exe ancestor index answer

/-- Every class is higher than its superclass, and no higher than there are classes. -/
structure Heights (exe : Executable) (height : Nat → Nat) : Prop where
  le_size : ∀ index, height index ≤ exe.classes.size
  parent_lt : ∀ index parent, exe.Parent index parent → height parent.toNat < height index.toNat

variable {p : Program} {exe : Executable} {height : Nat → Nat} {index parent ancestor : UInt16}

theorem parent_iff :
  exe.Parent index parent
    ↔ ∃ c, exe.classes[index.toNat]? = some c ∧ c.superClass = some parent
  := Option.bind_eq_some_iff

/-- A class of the table has been laid out on top of its superclass. -/
theorem laidOut_of_found (laid : layoutClasses p = .ok exe.classes.toList) {c : Class}
    (found : exe.classes[index.toNat]? = some c) :
  ∃ decl inherited, p.classes[index.toNat]? = some decl
    ∧ inherited? (exe.classes[·]?) decl.superClass = some inherited ∧ c.LaidOut decl inherited
  := by
  obtain ⟨known, sound, -, final⟩ := Layouts.exists_known laid
  have same : known.find? = (exe.classes[·]?) := by
    funext k
    rw [final, Array.getElem?_toList]
  obtain ⟨decl, inherited, declared, handedDown, laidOut⟩ :=
    sound.laidOut index.toNat c (by rw [same]; exact found)
  rw [List.getElem?_toArray] at declared
  rw [same] at handedDown
  exact ⟨decl, inherited, declared, handedDown, laidOut⟩

/-- The superclass of a class has been laid out, and the class on top of it. -/
theorem laidOut_parent (laid : layoutClasses p = .ok exe.classes.toList)
    (up : exe.Parent index parent) :
  ∃ decl c superClass, p.classes[index.toNat]? = some decl ∧ exe.classes[index.toNat]? = some c
    ∧ exe.classes[parent.toNat]? = some superClass ∧ c.LaidOut decl superClass.members
  := by
  obtain ⟨c, found, child⟩ := parent_iff.1 up
  obtain ⟨decl, inherited, declared, handedDown, laidOut⟩ := laidOut_of_found laid found
  rw [← laidOut.superClass, child] at handedDown
  obtain ⟨superClass, there, rfl⟩ := Option.map_eq_some_iff.1 handedDown
  exact ⟨decl, c, superClass, declared, found, there, laidOut⟩

/-! ### The search for an ancestor -/

/-- The height of a class is the number of classes that are ranked lower. -/
theorem exists_heights (laid : layoutClasses p = .ok exe.classes.toList) :
  ∃ height, exe.Heights height
  := by
  obtain ⟨known, sound, -, final⟩ := Layouts.exists_known laid
  obtain ⟨rank, lower⟩ := sound.ranked
  let below (index : Nat) : Finset Nat :=
    (Finset.range exe.classes.size).filter fun k => rank k < rank index
  refine ⟨fun index => (below index).card, ?_, ?_⟩
  · intro index
    exact (Finset.card_filter_le _ _).trans_eq (Finset.card_range _)
  · intro index parent up
    obtain ⟨c, found, child⟩ := parent_iff.1 up
    obtain ⟨-, -, superClass, -, -, there, -⟩ := laidOut_parent laid up
    have less : rank parent.toNat < rank index.toNat := by
      apply lower _ c parent _ child
      rw [final, Array.getElem?_toList, found]
    have inside : parent.toNat < exe.classes.size := (Array.getElem?_eq_some_iff.1 there).1
    apply Finset.card_lt_card
    apply Finset.ssubset_iff_of_subset _ |>.2
    · refine ⟨parent.toNat, ?_, ?_⟩
      · exact Finset.mem_filter.2 ⟨Finset.mem_range.2 inside, less⟩
      · exact fun listed => Nat.lt_irrefl _ (Finset.mem_filter.1 listed).2
    · intro k listed
      obtain ⟨inside, lower⟩ := Finset.mem_filter.1 listed
      exact Finset.mem_filter.2 ⟨inside, lower.trans less⟩

/-- An ancestor that is met in a number of steps is on the chain of superclasses. -/
theorem reflTransGen_of_reaches {steps : Nat} (met : exe.reaches ancestor steps index) :
  Relation.ReflTransGen exe.Parent index ancestor
  := by
  induction steps generalizing index with
  | zero =>
    rw [reaches, beq_iff_eq] at met
    rw [met]
  | succ steps ih =>
    rw [reaches, Bool.or_eq_true, beq_iff_eq] at met
    rcases met with rfl | above
    · exact .refl
    · cases up : exe.superClass? index with
      | none => simp [up] at above
      | some parent =>
          rw [up] at above
          exact .head up (ih above)

/-- A class that is as high as there are steps meets each of its ancestors. -/
theorem Heights.reaches (heights : exe.Heights height) {steps : Nat}
    (enough : height index.toNat ≤ steps) (chain : Relation.ReflTransGen exe.Parent index ancestor) :
  exe.reaches ancestor steps index
  := by
  induction chain using Relation.ReflTransGen.head_induction_on generalizing steps with
  | refl =>
    cases steps with
    | zero | succ steps => simp [Executable.reaches]
  | @head index parent up _ ih =>
    have lower := heights.parent_lt index parent up
    cases steps with
    | zero => omega
    | succ steps =>
      have met : exe.reaches ancestor steps parent := ih (by omega)
      simp [Executable.reaches, show exe.superClass? index = some parent from up, met]

/-- A subclass is a class from which the ancestor is met on the chain of superclasses. -/
theorem isSubclass_iff (laid : layoutClasses p = .ok exe.classes.toList) :
  exe.isSubclass index ancestor ↔ Relation.ReflTransGen exe.Parent index ancestor
  := by
  obtain ⟨height, heights⟩ := exists_heights laid
  exact ⟨reflTransGen_of_reaches, heights.reaches (heights.le_size _)⟩

/-- The search from a class of the table ends. -/
theorem search_isSubclass (laid : layoutClasses p = .ok exe.classes.toList)
    (inside : index.toNat < exe.classes.size) :
  exe.Search ancestor index (exe.isSubclass index ancestor)
  := by
  obtain ⟨height, heights⟩ := exists_heights laid
  have search : ∀ (steps : Nat) (index : UInt16), index.toNat < exe.classes.size →
      height index.toNat ≤ steps → exe.Search ancestor index (exe.reaches ancestor steps index) := by
    intro steps
    induction steps with
    | zero =>
      intro index inside low
      have found := Array.getElem?_eq_getElem inside
      rw [reaches]
      by_cases here : index = ancestor
      · subst here
        rw [beq_self_eq_true]
        exact .found found
      · rw [beq_false_of_ne here]
        refine .top here found ?_
        cases child : exe.classes[index.toNat].superClass with
        | none => rfl
        | some parent =>
          have lower := heights.parent_lt index parent (parent_iff.2 ⟨_, found, child⟩)
          omega
    | succ steps ih =>
      intro index inside low
      have found := Array.getElem?_eq_getElem inside
      rw [reaches]
      by_cases here : index = ancestor
      · subst here
        rw [beq_self_eq_true, Bool.true_or]
        exact .found found
      · rw [beq_false_of_ne here, Bool.false_or]
        cases child : exe.classes[index.toNat].superClass with
        | none =>
          rw [superClass?, found, Option.bind_some, child]
          exact .top here found child
        | some parent =>
          have up : exe.Parent index parent := parent_iff.2 ⟨_, found, child⟩
          have lower := heights.parent_lt index parent up
          obtain ⟨-, -, superClass, -, -, there, -⟩ := laidOut_parent laid up
          rw [superClass?, found, Option.bind_some, child]
          exact .up here found child
            (ih parent (Array.getElem?_eq_some_iff.1 there).1 (by omega))
  exact search _ index inside (heights.le_size _)

theorem Heights.le_of_chain (heights : exe.Heights height)
    (chain : Relation.ReflTransGen exe.Parent index ancestor) :
  height ancestor.toNat ≤ height index.toNat
  := by
  induction chain with
  | refl => exact Nat.le_refl _
  | tail _ up ih => exact Nat.le_trans (Nat.le_of_lt (heights.parent_lt _ _ up)) ih

/-- No two classes are subclasses of each other. -/
theorem eq_of_chains (laid : layoutClasses p = .ok exe.classes.toList)
    (chain : Relation.ReflTransGen exe.Parent index ancestor)
    (back : Relation.ReflTransGen exe.Parent ancestor index) :
  index = ancestor
  := by
  obtain ⟨height, heights⟩ := exists_heights laid
  rcases chain.cases_head with same | ⟨parent, up, above⟩
  · exact same
  · have lower := heights.parent_lt _ _ up
    have below := heights.le_of_chain above
    have higher := heights.le_of_chain back
    omega

/-! ### Slots -/

/-- A subclass has the fields of an ancestor in their slots. -/
theorem getElem?_fields_of_chain (laid : layoutClasses p = .ok exe.classes.toList)
    (chain : Relation.ReflTransGen exe.Parent index ancestor) {c a : Class}
    (found : exe.classes[index.toNat]? = some c) (above : exe.classes[ancestor.toNat]? = some a)
    {k : Nat} {field : VariableDecl} (declared : a.fields[k]? = some field) :
  c.fields[k]? = some field
  := by
  induction chain using Relation.ReflTransGen.head_induction_on generalizing c with
  | refl =>
    rw [found] at above
    cases above
    exact declared
  | @head index parent up _ ih =>
    obtain ⟨decl, c', superClass, -, found', there, laidOut⟩ := laidOut_parent laid up
    rw [found] at found'
    cases found'
    have fields : c.fields = superClass.fields ++ declaredFields decl.members :=
      laidOut.members.fields
    have inherited := ih there
    rw [fields, List.getElem?_append_left (List.getElem?_eq_some_iff.1 inherited).1, inherited]

/-- A subclass has the methods of an ancestor in their slots, perhaps with other functions. -/
theorem getElem?_methods_of_chain (laid : layoutClasses p = .ok exe.classes.toList)
    (chain : Relation.ReflTransGen exe.Parent index ancestor) {c a : Class}
    (found : exe.classes[index.toNat]? = some c) (above : exe.classes[ancestor.toNat]? = some a)
    {k : Nat} {method : Method} (declared : a.methods[k]? = some method) :
  ∃ f, c.methods[k]? = some ⟨method.name, f⟩
  := by
  induction chain using Relation.ReflTransGen.head_induction_on generalizing c with
  | refl =>
    rw [found] at above
    cases above
    exact ⟨method.function, declared⟩
  | @head index parent up _ ih =>
    obtain ⟨decl, c', superClass, -, found', there, laidOut⟩ := laidOut_parent laid up
    rw [found] at found'
    cases found'
    obtain ⟨f, inherited⟩ := ih there
    have named : superClass.members.methodNames[k]? = some method.name := by
      simp [Members.methodNames, Class.members, inherited]
    have names : c.members.methodNames[k]? = some method.name := by
      rw [laidOut.members.methodNames,
        List.getElem?_append_left (List.getElem?_eq_some_iff.1 named).1, named]
    rw [Members.methodNames, List.getElem?_map] at names
    obtain ⟨m, there', name⟩ := Option.map_eq_some_iff.1 names
    exact ⟨m.function, by rw [← name]; exact there'⟩

/-- The function in a method slot is what the name of the method stands for. -/
theorem resolves_of_slot (laid : layoutClasses p = .ok exe.classes.toList) {c : Class}
    (found : exe.classes[index.toNat]? = some c) {k : Nat} {method : Method}
    (slot : c.methods[k]? = some method) :
  p.Resolves method.name index.toNat method.function
  := by
  obtain ⟨height, heights⟩ := exists_heights laid
  -- The superclass is lower.
  induction height_eq : height index.toNat using Nat.strongRecOn generalizing index c with
  | ind _ ih =>
    obtain ⟨decl, inherited, declared, handedDown, laidOut⟩ := laidOut_of_found laid found
    cases last : lastDeclared? decl.members method.name with
    | some f =>
      rw [laidOut.members.declaredFunction k method f slot last]
      exact .declared declared last
    | none =>
      have slot' := laidOut.members.inheritedFunction k method slot last
      cases child : decl.superClass with
      | none =>
        rw [child] at handedDown
        cases handedDown
        cases slot'
      | some parent =>
        rw [child] at handedDown
        obtain ⟨superClass, there, rfl⟩ := Option.map_eq_some_iff.1 handedDown
        have up : exe.Parent index parent :=
          parent_iff.2 ⟨c, found, laidOut.superClass.trans child⟩
        have lower := heights.parent_lt index parent up
        rw [height_eq] at lower
        exact .inherited declared last child (ih _ lower there slot' rfl)

end Executable

end Bytecode
