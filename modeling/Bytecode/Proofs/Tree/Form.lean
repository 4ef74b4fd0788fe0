import Mathlib
import Bytecode.Tree.Reader

/-!
# The form of programs as JSON

`Node.form` describes the values that programs and their parts are written as: records with named
fields, alternatives with tags, lists and optional values. Of every field it says whether it has a
default value. Such a field may be left out of a value where it has its default; `Trims` is what
becomes of a value when any number of fields are left out in this way, anywhere in it. In particular
a value has the form if nothing at all is left out of it.

A value `Represents` something for a reader if it has the form and the reader gets the same out of
all that can be trimmed from it. That of a value follows from that of its parts.
-/

namespace Bytecode

namespace Json

/-! ### Forms -/

/-- The parts of a program that have a form of their own. -/
inductive Node where
  | position | ty | variable | binaryOp | unaryOp | conversion | expr | exprKind
  | stmt | stmtKind | block | elif | variableDecl | function | member | classDecl | program

/-- How a value is written. -/
inductive Form where
  | bool
  | integer
  /-- A double literal, which may be written in any way. -/
  | double
  | string
  /-- Nothing is `null`. -/
  | option (form : Form)
  | list (item : Form)
  /-- The fields in their order, some with a default value. -/
  | record (fields : List (String × Form × Option Json))
  /-- The tags; an alternative that carries nothing is its bare tag. -/
  | choice (alternatives : List (String × Option Form))
  | node (node : Node)

/-- A field that cannot be left out. -/
abbrev required (name : String) (form : Form) : String × Form × Option Json := (name, form, none)

/-- A field with a default value. -/
abbrev defaulted (name : String) (form : Form) (value : Json) : String × Form × Option Json :=
  (name, form, some value)

abbrev optional (name : String) (form : Form) : String × Form × Option Json :=
  (name, .option form, some .null)

/-- The position of what has none in the source. -/
def nowhere : Json := .obj [("line", .ofNat 0), ("column", .ofNat 0)]

/-- The position of a part, which is the last of its fields. -/
abbrev located : String × Form × Option Json := defaulted "position" (.node .position) nowhere

def Node.form : Node → Form
  | .position => .record [required "line" .integer, defaulted "column" .integer (.ofNat 0)]
  | .ty =>
    .choice [("void", none), ("boolean", none), ("int", none), ("double", none), ("string", none),
      ("null", none), ("class", some .integer), ("array", some (.node .ty)),
      ("function", some (.record [required "ret" (.node .ty), required "params" (.list (.node .ty))]))]
  | .variable => .choice [("local", some .integer), ("global", some .integer)]
  | .binaryOp =>
    .choice [("add", none), ("sub", none), ("mul", none), ("div", none), ("mod", none), ("eq", none),
      ("ne", none), ("gt", none), ("ge", none), ("lt", none), ("le", none), ("and", none),
      ("or", none)]
  | .unaryOp => .choice [("minus", none), ("not", none)]
  | .conversion =>
    .choice [("int_to_double", none), ("double_to_int", none), ("boolean_to_string", none),
      ("int_to_string", none), ("double_to_string", none)]
  | .expr => .record [required "kind" (.node .exprKind), required "ty" (.node .ty), located]
  | .exprKind =>
    .choice [("boolean", some .bool), ("int", some .integer), ("double", some .double),
      ("string", some .string), ("null", none), ("variable", some (.node .variable)),
      ("function", some .integer),
      ("assign", some (.record [required "target" (.node .expr), required "value" (.node .expr)])),
      ("binary", some (.record [required "op" (.node .binaryOp), required "lhs" (.node .expr),
        required "rhs" (.node .expr)])),
      ("unary", some (.record [required "op" (.node .unaryOp), required "operand" (.node .expr)])),
      ("call", some (.record [required "callee" (.node .expr),
        required "args" (.list (.node .expr))])),
      ("method", some (.record [required "object" (.node .expr), required "index" .integer])),
      ("index", some (.record [required "array" (.node .expr), required "index" (.node .expr)])),
      ("field", some (.record [required "object" (.node .expr), required "index" .integer])),
      ("new", some (.record [required "class" .integer])),
      ("new_array", some (.record [required "size" (.node .expr)])),
      ("array_literal", some (.list (.node .expr))),
      ("convert", some (.record [required "conversion" (.node .conversion),
        required "operand" (.node .expr)])),
      ("down_cast", some (.record [required "class" .integer, required "operand" (.node .expr)])),
      ("instance_of", some (.record [required "class" .integer, required "operand" (.node .expr)])),
      ("array_length", some (.node .expr)), ("string_length", some (.node .expr))]
  | .stmt => .record [required "kind" (.node .stmtKind), located]
  | .stmtKind =>
    .choice [("expression", some (.node .expr)),
      ("declaration", some (.record [required "variable" (.node .variable),
        required "ty" (.node .ty), optional "initializer" (.node .expr)])),
      ("if", some (.record [required "condition" (.node .expr), required "then_block" (.node .block),
        defaulted "elifs" (.list (.node .elif)) (.arr []), optional "else_block" (.node .block)])),
      ("for", some (.record [optional "init" (.node .expr), optional "condition" (.node .expr),
        optional "post" (.node .expr), required "body" (.node .block)])),
      ("return", some (.option (.node .expr))), ("break", none), ("continue", none),
      ("block", some (.node .block))]
  | .block => .record [required "statements" (.list (.node .stmt))]
  | .elif => .record [required "condition" (.node .expr), required "block" (.node .block)]
  | .variableDecl => .record [required "name" .string, required "ty" (.node .ty)]
  | .function =>
    .record [required "name" .string, defaulted "package" .string (.str ""),
      required "return_type" (.node .ty), required "params" (.list (.node .variableDecl)),
      defaulted "locals" (.list (.node .variableDecl)) (.arr []), optional "body" (.node .block),
      optional "class" .integer, located]
  | .member =>
    .choice [("field", some (.record [required "name" .string, required "ty" (.node .ty), located])),
      ("method", some (.record [required "name" .string, required "function" .integer, located]))]
  | .classDecl =>
    .record [required "name" .string, defaulted "package" .string (.str ""),
      optional "super_class" .integer, required "members" (.list (.node .member)), located]
  | .program =>
    .record [defaulted "package" .string (.str ""),
      defaulted "globals" (.list (.node .variableDecl)) (.arr []),
      defaulted "classes" (.list (.node .classDecl)) (.arr []),
      defaulted "functions" (.list (.node .function)) (.arr []),
      defaulted "statements" (.list (.node .stmt)) (.arr [])]

/-- The members are the fields in their order. Every field is kept with a value that is related to its
own, or left out if its value is the default. -/
inductive Fieldwise (R : Form → Json → Json → Prop) :
    List (String × Form × Option Json) → List (String × Json) → List (String × Json) → Prop
  | nil : Fieldwise R [] [] []
  | keep {name : String} {form : Form} {default : Option Json} {j j' : Json}
      {fields : List (String × Form × Option Json)} {members members' : List (String × Json)} :
      R form j j' → Fieldwise R fields members members' →
      Fieldwise R ((name, form, default) :: fields) ((name, j) :: members) ((name, j') :: members')
  | drop {name : String} {form : Form} {j : Json} {fields : List (String × Form × Option Json)}
      {members members' : List (String × Json)} :
      Fieldwise R fields members members' →
      Fieldwise R ((name, form, some j) :: fields) ((name, j) :: members) members'

mutual

/-- The first value has the form, and the second is what is left of it without some of the fields
that have their default values. -/
inductive Trims : Form → Json → Json → Prop
  | bool (value : Bool) : Trims .bool (.bool value) (.bool value)
  | integer {j : Json} : (∃ value, j = .ofInt value) → Trims .integer j j
  | double (j : Json) : Trims .double j j
  | string (value : String) : Trims .string (.str value) (.str value)
  | nothing {form : Form} : Trims (.option form) .null .null
  | something {form : Form} {j j' : Json} :
      j ≠ .null → Trims form j j' → Trims (.option form) j j'
  | list {form : Form} {items items' : List Json} :
      TrimsItems form items items' → Trims (.list form) (.arr items) (.arr items')
  | record {fields : List (String × Form × Option Json)} {members members' : List (String × Json)} :
      Fieldwise Trims fields members members' →
      Trims (.record fields) (.obj members) (.obj members')
  | bare {alternatives : List (String × Option Form)} {tag : String} :
      alternatives.lookup tag = some none → Trims (.choice alternatives) (.str tag) (.str tag)
  | carrying {alternatives : List (String × Option Form)} {tag : String} {form : Form} {j j' : Json} :
      alternatives.lookup tag = some (some form) → Trims form j j' →
      Trims (.choice alternatives) (.obj [(tag, j)]) (.obj [(tag, j')])
  | node {node : Node} {j j' : Json} : Trims node.form j j' → Trims (.node node) j j'

/-- So it is with the items of two lists. -/
inductive TrimsItems : Form → List Json → List Json → Prop
  | nil {form : Form} : TrimsItems form [] []
  | cons {form : Form} {j j' : Json} {items items' : List Json} :
      Trims form j j' → TrimsItems form items items' → TrimsItems form (j :: items) (j' :: items')

end

theorem nesting_tagged (tag : String) (j : Json) :
  (obj [(tag, j)]).nesting = j.nesting + 1
  := by
  rw [nesting, nestingMembers, nestingMembers, Nat.max_zero]

/-! ### Fields of a record -/

/-- The field is there with what is left of its value, less nested than the bound, or it is left out
and the value is its default. -/
def Record.HasField (r : Record) (bound : Nat) (name : String) (form : Form) (default : Option Json)
    (j : Json) : Prop :=
  (∃ j', r.find? name = some j' ∧ Trims form j j' ∧ j'.nesting < bound)
    ∨ (r.find? name = none ∧ r.positional = false ∧ default = some j)

/-- So it is with all fields, whose values are those of the members. -/
def Record.HasFields (r : Record) (bound : Nat) :
    List (String × Form × Option Json) → List (String × Json) → Prop
  | (name, form, default) :: fields, (_, j) :: members =>
    r.HasField bound name form default j ∧ r.HasFields bound fields members
  | _, _ => True

section

variable {fields : List (String × Form × Option Json)} {members members' : List (String × Json)}

theorem Fieldwise.sublist {R : Form → Json → Json → Prop} (trims : Fieldwise R fields members members') :
  (members'.map Prod.fst).Sublist (fields.map Prod.fst)
  := by
  induction trims with
  | nil => exact .slnil
  | keep _ _ ih => exact ih.cons_cons _
  | drop _ ih => exact ih.cons _

/-- Fields with other names are found behind one more member. -/
theorem Record.HasFields.cons {bound : Nat} {name : String} {j : Json}
    (holds : HasFields ⟨false, members'⟩ bound fields members) (other : name ∉ fields.map Prod.fst) :
  HasFields ⟨false, (name, j) :: members'⟩ bound fields members
  := by
  induction fields generalizing members with
  | nil => trivial
  | cons field fields ih =>
    obtain ⟨name', form, default⟩ := field
    cases members with
    | nil => trivial
    | cons member members =>
      rw [List.map_cons, List.mem_cons, not_or] at other
      have skipped : List.lookup name' ((name, j) :: members') = List.lookup name' members' := by
        have differs : (name' == name) = false := beq_false_of_ne (Ne.symm other.1)
        rw [List.lookup_cons, differs]
      refine ⟨?_, ih holds.2 other.2⟩
      unfold HasField find?
      rw [skipped]
      exact holds.1

theorem Fieldwise.hasFields {bound : Nat} (trims : Fieldwise Trims fields members members')
    (distinct : (fields.map Prod.fst).Nodup) (small : nestingMembers members' < bound) :
  Record.HasFields ⟨false, members'⟩ bound fields members
  := by
  induction trims with
  | nil => trivial
  | @keep name form default j j' fields members members' trimmed trims ih =>
    rw [List.map_cons, List.nodup_cons] at distinct
    rw [nestingMembers] at small
    refine ⟨.inl ⟨j', List.lookup_cons_self, trimmed, by omega⟩, ?_⟩
    exact (ih distinct.2 (by omega)).cons distinct.1
  | @drop name form j fields members members' trims ih =>
    rw [List.map_cons, List.nodup_cons] at distinct
    refine ⟨.inr ⟨?_, rfl, rfl⟩, ih distinct.2 small⟩
    apply List.lookup_eq_none_iff.2
    intro member listed
    apply bne_iff_ne.2
    rintro rfl
    exact distinct.1 (trims.sublist.subset (List.mem_map_of_mem listed))

/-- A record is read from what is left of it. -/
theorem Trims.exists_record {j' : Json} (trims : Trims (.record fields) (.obj members) j')
    (names : List String) (named : fields.map Prod.fst = names) (distinct : names.Nodup)
    {depth : Nat} (deep : j'.nesting ≤ depth) :
  ∃ r, Record.ofJson? names j' = some r ∧ r.HasFields depth fields members
  := by
  subst named
  cases trims with
  | @record _ _ members' trims =>
    have names := trims.sublist
    refine ⟨⟨false, members'⟩, ?_, trims.hasFields distinct deep⟩
    have known : members'.filter (fun member => (fields.map Prod.fst).contains member.1) = members' := by
      rw [List.filter_eq_self]
      intro member listed
      rw [List.contains_iff_mem]
      exact names.subset (List.mem_map_of_mem listed)
    dsimp only [Record.ofJson?]
    rw [known, if_pos (names.nodup distinct)]

end

/-! ### Representations -/

/-- The value has the form, and all that can be trimmed from it is read in the same way by a reader
that goes deep enough. -/
structure Represents {α : Type} (form : Form) (read : Nat → Json → Option α) (a : α) (j : Json) :
    Prop where
  whole : Trims form j j
  reads : ∀ {j' : Json} {depth : Nat}, Trims form j j' → j'.nesting < depth → read depth j' = some a

section

variable {α β : Type} {form : Form} {read : Nat → Json → Option α} {a : α} {j : Json}
variable {r : Record} {depth : Nat} {name : String}

/-- A reader that first finds out how deep it has to go. -/
theorem Represents.atAnyDepth (represents : Represents form read a j) :
  Represents form (fun _ j => read (j.nesting + 1) j) a j
  := ⟨represents.whole, fun trims _ => represents.reads trims (Nat.lt_succ_self _)⟩

/-- A value represents at most one thing for a reader. -/
theorem Represents.unique {a' : α} (represents : Represents form read a j)
    (represents' : Represents form read a' j) :
  a = a'
  := by
  have reads := represents.reads represents.whole (Nat.lt_succ_self _)
  rw [represents'.reads represents.whole (Nat.lt_succ_self _)] at reads
  exact (Option.some.inj reads).symm

theorem Represents.map (represents : Represents form read a j) (f : α → β) :
  Represents form (fun depth j => (read depth j).map f) (f a) j
  := by
  refine ⟨represents.whole, ?_⟩
  intro j' depth trims small
  rw [represents.reads trims small, Option.map_some]

theorem Represents.node {node : Node} (represents : Represents node.form read a j) :
  Represents (.node node) read a j
  := by
  refine ⟨.node represents.whole, ?_⟩
  intro j' depth trims small
  cases trims with
  | node trims => exact represents.reads trims small

/-! Fields of a record -/

theorem Record.HasField.required (has : r.HasField depth name form none j)
    (represents : Represents form read a j) :
  r.required name (read depth) = some a
  := by
  rcases has with ⟨j', found, trims, small⟩ | ⟨-, -, default⟩
  · rw [Record.required, found, Option.bind_some]
    exact represents.reads trims small
  · cases default

theorem Record.HasField.withDefault {value : Json} {default : α}
    (has : r.HasField depth name form (some value) j) (represents : Represents form read a j)
    (unset : Represents form read default value) :
  r.withDefault name (read depth) default = some a
  := by
  rcases has with ⟨j', found, trims, small⟩ | ⟨absent, -, isDefault⟩
  · rw [Record.withDefault, found]
    exact represents.reads trims small
  · cases isDefault
    rw [Record.withDefault, absent, represents.unique unset]

theorem Record.HasField.optional {a : Option α}
    (has : r.HasField depth name (.option form) (some .null) j)
    (represents : Represents (.option form) (fun depth => toOption? (read depth)) a j) :
  r.optional name (read depth) = some a
  := by
  rcases has with ⟨j', found, trims, small⟩ | ⟨absent, named, isDefault⟩
  · rw [Record.optional, found]
    exact represents.reads trims small
  · cases isDefault
    have nothing := represents.reads .nothing (Nat.lt_succ_self _)
    cases nothing
    rw [Record.optional, absent, named]
    rfl

section

variable (names : List String) {fields : List (String × Form × Option Json)}
  {members : List (String × Json)} (whole : Fieldwise Trims fields members members)
  (named : fields.map Prod.fst = names) (distinct : names.Nodup)
include whole named distinct

/-- A record is read field by field. -/
theorem Represents.record
    (opens : ∀ {r : Record} {j' : Json} {depth : Nat}, Record.ofJson? names j' = some r →
      r.HasFields depth fields members → read depth j' = some a) :
  Represents (.record fields) read a (.obj members)
  := by
  refine ⟨.record whole, ?_⟩
  intro j' depth trims small
  obtain ⟨r, opened, has⟩ := trims.exists_record names named distinct (Nat.le_of_lt small)
  exact opens opened has

/-- The reader goes down one level for the fields. -/
theorem Represents.recordBelow
    (opens : ∀ {r : Record} {j' : Json} {depth : Nat}, Record.ofJson? names j' = some r →
      r.HasFields depth fields members → read (depth + 1) j' = some a) :
  Represents (.record fields) read a (.obj members)
  := by
  refine ⟨.record whole, ?_⟩
  intro j' depth trims small
  cases depth with
  | zero => exact absurd small (Nat.not_lt_zero _)
  | succ depth =>
    obtain ⟨r, opened, has⟩ := trims.exists_record names named distinct (Nat.le_of_lt_succ small)
    exact opens opened has

end

section

variable {α₁ α₂ α₃ : Type} {form₁ form₂ form₃ : Form} {read₁ : Nat → Json → Option α₁}
  {read₂ : Nat → Json → Option α₂} {read₃ : Nat → Json → Option α₃} {a₁ : α₁} {a₂ : α₂} {a₃ : α₃}
  {j₁ j₂ j₃ : Json} {n₁ n₂ n₃ : String}

theorem Represents.oneField (first : Represents form₁ read₁ a₁ j₁) (make : α₁ → α) :
  Represents (.record [required n₁ form₁]) (fun depth j => do
    let r ← Record.ofJson? [n₁] j
    return make (← r.required n₁ (read₁ depth))) (make a₁) (.obj [(n₁, j₁)])
  := by
  apply Represents.record [n₁] (.keep first.whole .nil) rfl (List.nodup_singleton n₁)
  intro r j' depth opened has
  obtain ⟨has₁, -⟩ := has
  rw [opened]
  simp [has₁.required first]

theorem Represents.twoFields (distinct : [n₁, n₂].Nodup) (first : Represents form₁ read₁ a₁ j₁)
    (second : Represents form₂ read₂ a₂ j₂) (make : α₁ → α₂ → α) :
  Represents (.record [required n₁ form₁, required n₂ form₂]) (fun depth j => do
    let r ← Record.ofJson? [n₁, n₂] j
    return make (← r.required n₁ (read₁ depth)) (← r.required n₂ (read₂ depth)))
    (make a₁ a₂) (.obj [(n₁, j₁), (n₂, j₂)])
  := by
  apply Represents.record [n₁, n₂] (.keep first.whole (.keep second.whole .nil)) rfl distinct
  intro r j' depth opened has
  obtain ⟨has₁, has₂, -⟩ := has
  rw [opened]
  simp [has₁.required first, has₂.required second]

theorem Represents.threeFields (distinct : [n₁, n₂, n₃].Nodup)
    (first : Represents form₁ read₁ a₁ j₁) (second : Represents form₂ read₂ a₂ j₂)
    (third : Represents form₃ read₃ a₃ j₃) (make : α₁ → α₂ → α₃ → α) :
  Represents (.record [required n₁ form₁, required n₂ form₂, required n₃ form₃]) (fun depth j => do
    let r ← Record.ofJson? [n₁, n₂, n₃] j
    return make (← r.required n₁ (read₁ depth)) (← r.required n₂ (read₂ depth))
      (← r.required n₃ (read₃ depth)))
    (make a₁ a₂ a₃) (.obj [(n₁, j₁), (n₂, j₂), (n₃, j₃)])
  := by
  apply Represents.record [n₁, n₂, n₃]
    (.keep first.whole (.keep second.whole (.keep third.whole .nil))) rfl distinct
  intro r j' depth opened has
  obtain ⟨has₁, has₂, has₃, -⟩ := has
  rw [opened]
  simp [has₁.required first, has₂.required second, has₃.required third]

end

/-! Lists and options -/

theorem Represents.list {as : List α} {js : List Json}
    (each : List.Forall₂ (Represents form read) as js) :
  Represents (.list form) (fun depth => toList? (read depth)) as (.arr js)
  := by
  have whole : TrimsItems form js js := by
    induction each with
    | nil => exact .nil
    | cons represents _ ih => exact .cons represents.whole ih
  refine ⟨.list whole, ?_⟩
  intro j' depth trims small
  cases trims with
  | @list _ _ items' trims =>
    rw [nesting] at small
    change items'.mapM (read depth) = some as
    clear whole
    induction each generalizing items' with
    | nil =>
      cases trims with
      | nil => rfl
    | cons represents _ ih =>
      cases trims with
      | cons first rest =>
        rw [nestingItems] at small
        have head := represents.reads first (show _ < depth by omega)
        have tail := ih rest (by omega)
        simp [List.mapM_cons, head, tail]

theorem Represents.nothing (form : Form) (read : Nat → Json → Option α) :
  Represents (.option form) (fun depth => toOption? (read depth)) none .null
  := by
  refine ⟨.nothing, ?_⟩
  intro j' depth trims _
  cases trims with
  | nothing => rfl
  | something notNull _ => exact absurd rfl notNull

/-- Nothing else is written as `null`. -/
theorem Represents.something (represents : Represents form read a j) (notNull : j ≠ .null)
    (unread : ∀ depth, read depth .null = none) :
  Represents (.option form) (fun depth => toOption? (read depth)) (some a) j
  := by
  refine ⟨.something notNull represents.whole, ?_⟩
  intro j' depth trims small
  cases trims with
  | nothing => exact absurd rfl notNull
  | something _ trims =>
    have read' := represents.reads trims small
    cases j' with
    | null =>
      rw [unread depth] at read'
      cases read'
    | _ => simp [toOption?, read']

theorem Represents.ofOption {write : α → Json} {a : Option α}
    (each : ∀ b, a = some b → Represents form read b (write b)) (notNull : ∀ b, write b ≠ .null)
    (unread : ∀ depth, read depth .null = none) :
  Represents (.option form) (fun depth => toOption? (read depth)) a (.ofOption write a)
  := by
  cases a with
  | none => exact .nothing form read
  | some b => exact (each b rfl).something (notNull b) unread

theorem Represents.ofList {write : α → Json} {as : List α}
    (each : ∀ b ∈ as, Represents form read b (write b)) :
  Represents (.list form) (fun depth => toList? (read depth)) as (.ofList write as)
  := by
  apply Represents.list
  rw [List.forall₂_map_right_iff, List.forall₂_same]
  exact each

/-! Alternatives -/

section

variable {alternatives : List (String × Option Form)} {tag : String} {part : Nat → Json → Option α}

theorem Represents.bare (listed : alternatives.lookup tag = some none)
    (opens : ∀ depth, read (depth + 1) (.str tag) = some a) :
  Represents (.choice alternatives) read a (.str tag)
  := by
  refine ⟨.bare listed, ?_⟩
  intro j' depth trims small
  cases trims with
  | bare =>
    cases depth with
    | zero => exact absurd small (Nat.not_lt_zero _)
    | succ depth => exact opens depth

/-- The reader goes down one level at a time. -/
theorem Represents.carryingBelow (listed : alternatives.lookup tag = some (some form))
    (represents : Represents form part a j)
    (opens : ∀ j' depth, read (depth + 1) (.obj [(tag, j')]) = part depth j') :
  Represents (.choice alternatives) read a (.obj [(tag, j)])
  := by
  refine ⟨.carrying listed represents.whole, ?_⟩
  intro j' depth trims small
  cases trims with
  | carrying found trims =>
    cases listed.symm.trans found
    rw [nesting_tagged] at small
    cases depth with
    | zero => exact absurd small (Nat.not_lt_zero _)
    | succ depth =>
      rw [opens]
      exact represents.reads trims (Nat.lt_of_succ_lt_succ small)

theorem Represents.carrying (listed : alternatives.lookup tag = some (some form))
    (represents : Represents form part a j)
    (opens : ∀ j' depth, read depth (.obj [(tag, j')]) = part depth j') :
  Represents (.choice alternatives) read a (.obj [(tag, j)])
  := by
  have deeper : Represents form (fun depth => part (depth + 1)) a j :=
    ⟨represents.whole, fun trims small => represents.reads trims (Nat.lt_succ_of_lt small)⟩
  exact .carryingBelow listed deeper fun j' depth => opens j' (depth + 1)

/-- An alternative that carries the fields of a record. -/
theorem Represents.carryingRecord (names : List String)
    {fields : List (String × Form × Option Json)} {members : List (String × Json)}
    (listed : alternatives.lookup tag = some (some (.record fields)))
    (whole : Fieldwise Trims fields members members) (named : fields.map Prod.fst = names)
    (distinct : names.Nodup)
    (opens : ∀ {r : Record} {j' : Json} {depth : Nat}, Record.ofJson? names j' = some r →
      r.HasFields depth fields members → read depth (.obj [(tag, j')]) = some a) :
  Represents (.choice alternatives) read a (.obj [(tag, .obj members)])
  := by
  have represents : Represents (.record fields) (fun depth j' => read depth (.obj [(tag, j')])) a
      (.obj members) := .record names whole named distinct opens
  exact .carrying listed represents fun _ _ => rfl

end

end

/-! ### Scalars -/

theorem Number.natOfDigits_digitValues (n : Nat) :
  natOfDigits (digitValues n) = n
  := by
  have digits := Nat.ofDigitChars_ten_toDigits (n := n)
  rw [Nat.ofDigitChars_eq_foldl] at digits
  rw [natOfDigits, digitValues, List.foldl_map]
  simpa only [Nat.mul_comm 10] using digits

theorem Number.toInt?_ofInt (i : Int) :
  (ofInt i).toInt? = some i
  := by
  have whole : ¬(i < 0 ∧ i.natAbs = 0) := by omega
  have signed : (if i < 0 then -(i.natAbs : Int) else i.natAbs) = i := by
    split
    all_goals omega
  unfold toInt? ofInt
  simp only [natOfDigits_digitValues, decide_eq_true_eq, whole, signed, true_and, not_false_eq_true,
    if_true]

theorem toIntIn?_ofInt {low high i : Int} (above : low ≤ i) (below : i ≤ high) :
  toIntIn? low high (.ofInt i) = some i
  := by
  simp [toIntIn?, ofInt, Number.toInt?_ofInt, above, below]

theorem toNatBelow?_ofNat {bound n : Nat} (below : n < bound) :
  toNatBelow? bound (.ofNat n) = some n
  := by
  rw [toNatBelow?, ofNat, toIntIn?_ofInt (by omega) (by omega)]
  rfl

theorem represents_integer {α : Type} {read : Json → Option α} {a : α} {i : Int}
    (reads : read (.ofInt i) = some a) :
  Represents .integer (fun _ => read) a (.ofInt i)
  := by
  refine ⟨.integer ⟨i, rfl⟩, ?_⟩
  intro j' depth trims _
  cases trims with
  | integer => exact reads

theorem represents_uint16 (i : UInt16) :
  Represents .integer (fun _ => toUInt16?) i (.ofNat i.toNat)
  := by
  apply represents_integer
  have read : toNatBelow? UInt16.size (.ofNat i.toNat) = some i.toNat := toNatBelow?_ofNat i.toNat_lt
  rw [toUInt16?, show ofInt i.toNat = ofNat i.toNat from rfl, read]
  simp

theorem represents_uint32 (i : UInt32) :
  Represents .integer (fun _ => toUInt32?) i (.ofNat i.toNat)
  := by
  apply represents_integer
  have read : toNatBelow? UInt32.size (.ofNat i.toNat) = some i.toNat := toNatBelow?_ofNat i.toNat_lt
  rw [toUInt32?, show ofInt i.toNat = ofNat i.toNat from rfl, read]
  simp

theorem represents_int64 (i : Int64) :
  Represents .integer (fun _ => toInt64?) i (.ofInt i.toInt)
  := by
  apply represents_integer
  rw [toInt64?, toIntIn?_ofInt i.minValue_le_toInt i.toInt_le]
  simp

theorem represents_bool (b : Bool) :
  Represents .bool (fun _ => toBool?) b (.bool b)
  := by
  refine ⟨.bool b, ?_⟩
  intro j' depth trims _
  cases trims with
  | bool => rfl

theorem represents_string (s : String) :
  Represents .string (fun _ => toString?) s (.str s)
  := by
  refine ⟨.string s, ?_⟩
  intro j' depth trims _
  cases trims with
  | string => rfl

end Json

end Bytecode
