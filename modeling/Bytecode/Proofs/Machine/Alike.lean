import Mathlib
import Bytecode.Proofs.Heap.Alike
import Bytecode.Proofs.Machine.Guarded

/-!
# Machines that are alike

Two machines are `Machine.Alike` when they are at the same place of the same code and their cells in
use, globals and heaps are the same up to a pairing of handles. What an instruction or a built-in
native does to them comes to outcomes that are alike, `Matched`: both succeed or both fail with the
same trap, and the machines are alike again, with more handles paired if objects have been made.
This takes for granted that no reference is read as a number, since the numbers of paired handles
differ.
-/

namespace Bytecode

variable {ρ ρ' : Pairing}

/-! ### Stacks -/

/-- The cells are the same up to the pairing. -/
inductive Cell.Alike (ρ : Pairing) : Cell → Cell → Prop
  | value {v w : Value} : v.Alike ρ w → Alike ρ (.value v) (.value w)
  | call (info : CallInfo) : Alike ρ (.call info) (.call info)

theorem Cell.Alike.mono {c c' : Cell} (alike : c.Alike ρ c') (within : ρ.Within ρ') :
  c.Alike ρ' c'
  := by
  cases alike with
  | value values => exact .value (values.mono within)
  | call info => exact .call info

namespace Stack

/-- The stacks have the same size, and the cells in use are the same up to the pairing. -/
structure Alike (ρ : Pairing) (s s' : Stack) : Prop where
  sp_eq : s'.sp = s.sp
  limit_eq : s'.limit = s.limit
  size_eq : s'.cells.size = s.cells.size
  cell : ∀ k c c', k < s.sp → s.cells[k]? = some c → s'.cells[k]? = some c' → c.Alike ρ c'

/-- The outcomes of two actions on stacks are alike: they succeed with stacks that are alike, or fail
with the same trap and without having changed anything. -/
inductive Matched (ρ : Pairing) (s s' : Stack) :
    EStateM.Result Trap Stack Unit → EStateM.Result Trap Stack Unit → Prop
  | ok {t t' : Stack} : t.Alike ρ t' → Matched ρ s s' (.ok () t) (.ok () t')
  | error (trap : Trap) : Matched ρ s s' (.error trap s) (.error trap s')

namespace Alike

variable {s s' : Stack}

section

variable (alike : Alike ρ s s')
include alike

theorem mono (within : ρ.Within ρ') :
  Alike ρ' s s'
  := ⟨alike.sp_eq, alike.limit_eq, alike.size_eq, fun k c c' used found found' =>
    (alike.cell k c c' used found found').mono within⟩

theorem exists_cell {k : Nat} {c : Cell} (used : k < s.sp) (found : s.cells[k]? = some c) :
  ∃ c', s'.cells[k]? = some c' ∧ c.Alike ρ c'
  := by
  have inside := (Array.getElem?_eq_some_iff.1 found).1
  rw [← alike.size_eq] at inside
  have there := Array.getElem?_eq_getElem inside
  exact ⟨_, there, alike.cell k c _ used found there⟩

/-- Operands on one side have partners on the other one. -/
theorem holds {low : Nat} {vs : List Value} (h : s.Holds low vs) :
  ∃ ws, s'.Holds low ws ∧ List.Forall₂ (Value.Alike ρ) vs ws
  := by
  have sp := h.sp_eq
  have sp' := alike.sp_eq
  have fits := h.fits
  have partner : ∀ k, low ≤ k → k < s'.sp → ∃ w, s'.cells[k]? = some (.value w) := by
    intro k from_ used
    obtain ⟨v, found⟩ := exists_value_of_shape (h.shape from_ (by omega))
    obtain ⟨c, found', contents⟩ := alike.exists_cell (by omega) found
    cases contents with
    | value _ => exact ⟨_, found'⟩
  obtain ⟨ws, length, held⟩ := exists_holds (by omega) (by rw [alike.size_eq]; omega) partner
  refine ⟨ws, held, List.forall₂_iff_get.2 ⟨by omega, ?_⟩⟩
  intro k inside inside'
  have cell := h.cell k vs[k] (List.getElem?_eq_getElem inside)
  have cell' := held.cell k ws[k] (List.getElem?_eq_getElem inside')
  cases alike.cell _ _ _ (by omega) cell cell' with
  | value values => exact values

theorem lowered (count : Nat) :
  Alike ρ (s.lowered count) (s'.lowered count)
  := by
  refine ⟨congrArg (· - count) alike.sp_eq, alike.limit_eq, alike.size_eq, ?_⟩
  intro k c c' used
  apply alike.cell
  change k < s.sp - count at used
  omega

theorem truncate {sp : Nat} (below : sp ≤ s.sp) :
  Alike ρ { s with sp } { s' with sp }
  := by
  refine ⟨rfl, alike.limit_eq, alike.size_eq, ?_⟩
  intro k c c' used
  apply alike.cell
  exact Nat.lt_of_lt_of_le used below

/-- A value is put into the same cell. -/
theorem set (index : Nat) {v w : Value} (values : v.Alike ρ w) :
  Alike ρ { s with cells := s.cells.setIfInBounds index (.value v) }
    { s' with cells := s'.cells.setIfInBounds index (.value w) }
  := by
  refine ⟨alike.sp_eq, alike.limit_eq, ?_, ?_⟩
  · change (s'.cells.setIfInBounds _ _).size = (s.cells.setIfInBounds _ _).size
    rw [Array.size_setIfInBounds, Array.size_setIfInBounds, alike.size_eq]
  · intro k c c' used found found'
    change (s.cells.setIfInBounds _ _)[k]? = _ at found
    change (s'.cells.setIfInBounds _ _)[k]? = _ at found'
    rw [Array.getElem?_setIfInBounds] at found found'
    split at found
    · next same =>
        rw [if_pos same, alike.size_eq] at found'
        split at found
        · next inside =>
            rw [if_pos inside] at found'
            cases found
            cases found'
            exact .value values
        · cases found
    · next other =>
        rw [if_neg other] at found'
        apply alike.cell k c c' used found found'

theorem grow (size : Nat) :
  Alike ρ (s.grow size) (s'.grow size)
  := by
  have count := alike.size_eq
  refine ⟨alike.sp_eq, alike.limit_eq, ?_, ?_⟩
  · simp [Stack.grow, count]
  · intro k c c' used found found'
    change (s.cells ++ Array.replicate _ _)[k]? = _ at found
    change (s'.cells ++ Array.replicate _ _)[k]? = _ at found'
    by_cases inside : k < s.cells.size
    · rw [Array.getElem?_append_left inside] at found
      rw [Array.getElem?_append_left (by omega)] at found'
      apply alike.cell k c c' used found found'
    · rw [Array.getElem?_append_right (by omega), Array.getElem?_replicate] at found found'
      split at found
      all_goals cases found
      split at found'
      all_goals cases found'
      exact .value (.word 0)

/-- Room is made on both sides or on none. -/
theorem reserve (needed : Nat) :
  Matched ρ s s' (reserve needed s) (reserve needed s')
  := by
  have grown : s'.grownSize (s.sp + needed) = s.grownSize (s.sp + needed) := by
    unfold grownSize
    rw [alike.size_eq, alike.limit_eq]
  unfold Stack.reserve
  simp only [alike.sp_eq, alike.size_eq, alike.limit_eq, grown]
  split
  · exact .error _
  · split
    · exact .ok alike
    · split
      · exact .error _
      · split
        · exact .error _
        · exact .ok (alike.grow _)

theorem shrink (count : Nat) :
  Matched ρ s s' (shrink count s) (shrink count s')
  := by
  unfold Stack.shrink
  rw [alike.sp_eq]
  split
  · exact .ok (alike.truncate (Nat.sub_le _ _))
  · exact .error _

theorem place {c c' : Cell} (cells : c.Alike ρ c') :
  Matched ρ s s' (place c s) (place c' s')
  := by
  have sp := alike.sp_eq
  have size := alike.size_eq
  unfold Stack.place
  by_cases room : s.sp < s.cells.size
  · have room' : s'.sp < s'.cells.size := by omega
    rw [dif_pos room, dif_pos room']
    refine .ok ⟨congrArg (· + 1) sp, alike.limit_eq, ?_, ?_⟩
    · change (s'.cells.set s'.sp c' room').size = (s.cells.set s.sp c room).size
      rw [Array.size_set, Array.size_set, size]
    · intro k d d' used found found'
      change k < s.sp + 1 at used
      change (s.cells.set s.sp c room)[k]? = _ at found
      change (s'.cells.set s'.sp c' room')[k]? = _ at found'
      rw [Array.getElem?_set] at found found'
      rw [sp] at found'
      split at found
      · next same =>
          rw [if_pos same] at found'
          cases found
          cases found'
          exact cells
      · next other =>
          rw [if_neg other] at found'
          apply alike.cell k d d' (by omega) found found'
  · rw [dif_neg room, dif_neg (by omega)]
    exact .error _

/-- A cell is pushed on both sides or on none. -/
theorem pushCell {c c' : Cell} (cells : c.Alike ρ c') :
  Matched ρ s s' (pushCell c s) (pushCell c' s')
  := by
  have sp := alike.sp_eq
  have size := alike.size_eq
  unfold Stack.pushCell
  by_cases full : s.sp = s.cells.size
  · rw [if_pos full, if_pos (by omega)]
    have reserved := alike.reserve 1
    generalize made : Stack.reserve 1 s = r at reserved
    generalize Stack.reserve 1 s' = r' at reserved
    cases reserved with
    | @ok t t' alike' =>
      have room := (reserve_eq_ok made).room
      have top := (reserve_eq_ok made).sp_eq
      have placed := alike'.place cells
      dsimp only
      generalize ran : Stack.place c t = r at placed ⊢
      generalize Stack.place c' t' = r' at placed ⊢
      cases placed with
      | ok alike'' => exact .ok alike''
      | error trap =>
        -- room has just been made
        unfold Stack.place at ran
        rw [dif_pos (by omega)] at ran
        cases ran
    | error trap => exact .error trap
  · rw [if_neg full, if_neg (by omega)]
    apply alike.place cells

end

end Alike

end Stack

/-! ### Machines -/

namespace Machine

/-- The machines are at the same place of the same code, have the same output, and their cells in
use, globals and heaps are the same up to the pairing, as long as every slot has a handle of its
own. -/
structure Alike (ρ : Pairing) (m m' : Machine) : Prop where
  exe : m'.exe = m.exe
  natives : m'.natives = m.natives
  registers : m'.registers = m.registers
  output : m'.output = m.output
  stack : m.stack.Alike ρ m'.stack
  globals : Alongside (Value.Alike ρ) m.globals m'.globals
  heap : Heap.AlikeIn ρ m.heap m'.heap

/-- The outcomes of two actions are alike: they yield values that are related or fail with the same
trap, and the machines are alike. -/
inductive Matched {α β : Type} (R : Pairing → α → β → Prop) (ρ : Pairing) :
    EStateM.Result Trap Machine α → EStateM.Result Trap Machine β → Prop
  | ok {ρ' : Pairing} {a : α} {b : β} {m m' : Machine} :
      ρ.Within ρ' → m.Alike ρ' m' → R ρ' a b → Matched R ρ (.ok a m) (.ok b m')
  | error {ρ' : Pairing} {trap : Trap} {m m' : Machine} :
      ρ.Within ρ' → m.Alike ρ' m' → Matched R ρ (.error trap m) (.error trap m')

/-- The outcomes of two actions that leave the machines as they are: they yield values that are
related or fail with the same trap. -/
inductive Reading {α β : Type} (R : α → β → Prop) (m m' : Machine) :
    EStateM.Result Trap Machine α → EStateM.Result Trap Machine β → Prop
  | ok {a : α} {b : β} : R a b → Reading R m m' (.ok a m) (.ok b m')
  | error (trap : Trap) : Reading R m m' (.error trap m) (.error trap m')

section

variable {α β γ δ : Type} {R : Pairing → α → β → Prop} {S : Pairing → γ → δ → Prop}
  {m m' : Machine} {x : MachineM α} {y : MachineM β} {f : α → MachineM γ} {g : β → MachineM δ}

theorem Matched.of_within {r : EStateM.Result Trap Machine α} {r' : EStateM.Result Trap Machine β}
    (within : ρ.Within ρ') (matched : Matched R ρ' r r') :
  Matched R ρ r r'
  := by
  cases matched with
  | ok within' alike related => exact .ok (within.trans within') alike related
  | error within' alike => exact .error (within.trans within') alike

theorem Matched.bind (first : Matched R ρ (x m) (y m'))
    (second : ∀ ρ' a b m₁ m₁', ρ.Within ρ' → m₁.Alike ρ' m₁' → R ρ' a b →
      Matched S ρ' (f a m₁) (g b m₁')) :
  Matched S ρ ((x >>= f) m) ((y >>= g) m')
  := by
  cases run : x m with
  | ok a m₁ =>
    cases run' : y m' with
    | ok b m₁' =>
      rw [run, run'] at first
      rw [bind_of_ok run, bind_of_ok run']
      cases first with
      | ok within alike related =>
        apply Matched.of_within within (second _ a b m₁ m₁' within alike related)
    | error trap m₁' =>
      rw [run, run'] at first
      cases first
  | error trap m₁ =>
    cases run' : y m' with
    | ok b m₁' =>
      rw [run, run'] at first
      cases first
    | error trap' m₁' =>
      rw [run, run'] at first
      rw [bind_of_error run, bind_of_error run']
      cases first with
      | error within alike => exact .error within alike

theorem Matched.map {g : α → γ} {g' : β → δ} (first : Matched R ρ (x m) (y m'))
    (each : ∀ ρ a b, R ρ a b → S ρ (g a) (g' b)) :
  Matched S ρ ((g <$> x) m) ((g' <$> y) m')
  := by
  rw [map_eq_pure_bind, map_eq_pure_bind]
  apply first.bind
  intro ρ' a b m₁ m₁' _ alike related
  exact .ok (.refl ρ') alike (each ρ' a b related)

namespace Reading

variable {Q : α → β → Prop} {T : γ → δ → Prop}

/-- What has been read is used. -/
theorem bind (first : Reading Q m m' (x m) (y m')) (alike : m.Alike ρ m')
    (second : ∀ a b, Q a b → Matched S ρ (f a m) (g b m')) :
  Matched S ρ ((x >>= f) m) ((y >>= g) m')
  := by
  generalize run : x m = r at first
  generalize run' : y m' = r' at first
  cases first with
  | ok related =>
    rw [bind_of_ok run, bind_of_ok run']
    apply second _ _ related
  | error trap =>
    rw [bind_of_error run, bind_of_error run']
    exact .error (.refl ρ) alike

/-- What has been read says what is read next. -/
theorem andThen (first : Reading Q m m' (x m) (y m'))
    (second : ∀ a b, Q a b → Reading T m m' (f a m) (g b m')) :
  Reading T m m' ((x >>= f) m) ((y >>= g) m')
  := by
  generalize run : x m = r at first
  generalize run' : y m' = r' at first
  cases first with
  | ok related =>
    rw [bind_of_ok run, bind_of_ok run']
    apply second _ _ related
  | error trap =>
    rw [bind_of_error run, bind_of_error run']
    exact .error trap

theorem matched {r : EStateM.Result Trap Machine α} {r' : EStateM.Result Trap Machine β}
    (reading : Reading Q m m' r r') (alike : m.Alike ρ m') (each : ∀ a b, Q a b → R ρ a b) :
  Matched R ρ r r'
  := by
  cases reading with
  | ok related => exact .ok (.refl ρ) alike (each _ _ related)
  | error trap => exact .error (.refl ρ) alike

end Reading

end

/-! ### Objects -/

section

variable {m m' : Machine} {v w v₂ w₂ : Value}

section

variable (heaps : Heap.Alike ρ m.heap m'.heap) (values : v.Alike ρ w)
include heaps values

theorem reading_object :
  Reading (fun o o' => o.Alike ρ o' ∧ RefersTo v o m.heap) m m' (object v m) (object w m')
  := by
  unfold object
  rcases values.handles with ⟨none_, none_'⟩ | ⟨a, b, named, named', paired⟩
  · simp only [none_, none_']
    exact .error _
  · obtain ⟨o, o', found, found', contents⟩ := heaps.object a b paired
    simp only [named, named', found, found']
    exact .ok ⟨contents, a, named, found⟩

theorem reading_text? :
  Reading Eq m m' (text? v m) (text? w m')
  := by
  unfold text? Host.text?
  rcases values.handles with ⟨none_, none_'⟩ | ⟨a, b, named, named', paired⟩
  · simp only [none_, none_']
    exact .ok rfl
  · obtain ⟨o, o', found, found', contents⟩ := heaps.object a b paired
    have there : m.host.heap.get? a = some o := found
    have there' : m'.host.heap.get? b = some o' := found'
    simp only [named, named', there, there']
    exact .ok contents.text?_eq

theorem reading_expectString :
  Reading Eq m m' (expectString v m) (expectString w m')
  := by
  apply (reading_object heaps values).andThen
  rintro o o' ⟨contents, -⟩
  cases contents with
  | string text => exact .ok rfl
  | _ => exact .error _

theorem reading_textOrNull :
  Reading Eq m m' (textOrNull v m) (textOrNull w m')
  := by
  apply (reading_text? heaps values).andThen
  rintro text _ rfl
  exact .ok rfl

theorem reading_sameString (values₂ : v₂.Alike ρ w₂) :
  Reading Eq m m' (sameString v v₂ m) (sameString w w₂ m')
  := by
  unfold sameString
  rcases values.handles with ⟨none_, none_'⟩ | ⟨a, b, named, named', -⟩
  · rcases values₂.handles with ⟨none₂, none₂'⟩ | ⟨a₂, b₂, named₂, named₂', -⟩
    · simp only [none_, none_', none₂, none₂']
      exact .ok rfl
    · simp only [none_, none_', named₂, named₂']
      exact .ok rfl
  · rcases values₂.handles with ⟨none₂, none₂'⟩ | ⟨a₂, b₂, named₂, named₂', -⟩
    · simp only [named, named', none₂, none₂']
      exact .ok rfl
    · simp only [named, named', named₂, named₂']
      apply (reading_text? heaps values).andThen
      rintro text _ rfl
      apply (reading_text? heaps values₂).andThen
      rintro text₂ _ rfl
      exact .ok rfl

end

theorem reading_compareStrings (heaps : Heap.Alike ρ m.heap m'.heap) (op : Comparison)
    (values : v.Alike ρ w) (values₂ : v₂.Alike ρ w₂) :
  Reading (Value.Alike ρ) m m' (compareStrings op v v₂ m) (compareStrings op w w₂ m')
  := by
  have equal (f : Bool → Bool) : Reading (Value.Alike ρ) m m'
      ((sameString v v₂ >>= fun same => pure (.ofBool (f same))) m)
      ((sameString w w₂ >>= fun same => pure (.ofBool (f same))) m') := by
    apply (reading_sameString heaps values values₂).andThen
    rintro same _ rfl
    exact .ok (.word _)
  have ordered (f : String → String → Bool) : Reading (Value.Alike ρ) m m'
      ((do
        let a ← expectString v
        let b ← expectString v₂
        return Value.ofBool (f a b)) m)
      ((do
        let a ← expectString w
        let b ← expectString w₂
        return Value.ofBool (f a b)) m') := by
    apply (reading_expectString heaps values).andThen
    rintro a _ rfl
    apply (reading_expectString heaps values₂).andThen
    rintro b _ rfl
    exact .ok (.word _)
  cases op with
  | eq => exact equal id
  | ne => exact equal not
  | _ => exact ordered _

/-! ### Arrays -/

theorem reading_checkIndex (index : Int64) (size : Nat) :
  Reading (fun i j => i = j ∧ i < size ∧ i = index.toInt.toNat ∧ 0 ≤ index.toInt) m m'
    (checkIndex index size m) (checkIndex index size m')
  := by
  unfold checkIndex
  by_cases inside : 0 ≤ index.toInt ∧ index.toInt < size
  · rw [if_pos inside]
    exact .ok ⟨rfl, by omega, rfl, inside.1⟩
  · rw [if_neg inside]
    exact .error _

theorem reading_arrayGet (heaps : Heap.Alike ρ m.heap m'.heap) (values : v.Alike ρ w)
    (index : Int64) :
  Reading (Value.Alike ρ) m m' (arrayGet v index m) (arrayGet w index m')
  := by
  apply (reading_object heaps values).andThen
  rintro o o' ⟨contents, -⟩
  rw [← contents.arrayLength?_eq]
  apply (reading_checkIndex index _).andThen
  rintro i _ ⟨rfl, -⟩
  rcases contents.element? i with ⟨none_, none_'⟩ | ⟨x, y, found, found', elements⟩
  · rw [none_, none_']
    exact .error _
  · rw [found, found']
    exact .ok elements

theorem reading_arrayLength (heaps : Heap.Alike ρ m.heap m'.heap) (values : v.Alike ρ w) :
  Reading Eq m m' (arrayLength v m) (arrayLength w m')
  := by
  apply (reading_object heaps values).andThen
  rintro o o' ⟨contents, -⟩
  rw [← contents.arrayLength?_eq, ← contents.kindName_eq]
  cases o.arrayLength? with
  | none => exact .error _
  | some n => exact .ok rfl

/-! ### Instances -/

theorem reading_expectInstance (heaps : Heap.Alike ρ m.heap m'.heap) (values : v.Alike ρ w) :
  Reading (fun a b => a.1 = b.1 ∧ Alongside (Value.Alike ρ) a.2 b.2) m m' (expectInstance v m)
    (expectInstance w m')
  := by
  apply (reading_object heaps values).andThen
  rintro o o' ⟨contents, -⟩
  cases contents with
  | inst class_ along => exact .ok ⟨rfl, along⟩
  | _ => exact .error _

theorem reading_getField (heaps : Heap.Alike ρ m.heap m'.heap) (values : v.Alike ρ w)
    (index : Nat) :
  Reading (Value.Alike ρ) m m' (getField v index m) (getField w index m')
  := by
  apply (reading_expectInstance heaps values).andThen
  rintro ⟨class_, fields⟩ ⟨_, fields'⟩ ⟨rfl, along⟩
  dsimp only at along ⊢
  cases found : fields[index]? with
  | none =>
    have outside := Array.getElem?_eq_none_iff.1 found
    rw [along.size_eq] at outside
    rw [Array.getElem?_eq_none_iff.2 outside]
    exact .error _
  | some field =>
    obtain ⟨field', found', fields⟩ := along.exists_right found
    rw [found']
    exact .ok fields

section

variable (alike : m.Alike ρ m') (heaps : Heap.Alike ρ m.heap m'.heap) (values : v.Alike ρ w)
include alike heaps values

theorem reading_methodFunction (index : Nat) :
  Reading Eq m m' (methodFunction v index m) (methodFunction w index m')
  := by
  apply (reading_expectInstance heaps values).andThen
  rintro ⟨class_, fields⟩ ⟨_, fields'⟩ ⟨rfl, -⟩
  dsimp only
  rw [bind_of_ok (get_eq m), bind_of_ok (get_eq m'), alike.exe]
  cases (m.exe.classes[class_.toNat]?).bind fun c => c.methods[index]? with
  | none => exact .error _
  | some method => exact .ok rfl

theorem reading_downCast (target : UInt16) :
  Reading Eq m m' (downCast v target m) (downCast w target m')
  := by
  unfold downCast
  rw [← values.isNull_eq]
  split
  · exact .ok rfl
  · apply (reading_expectInstance heaps values).andThen
    rintro ⟨class_, fields⟩ ⟨_, fields'⟩ ⟨rfl, -⟩
    change Reading Eq m m' ((if _ then (fault (.classCast (m.exe.className class_)
        (m.exe.className target)) : MachineM Unit) else _) m)
      ((if _ then (fault (.classCast (m'.exe.className class_)
        (m'.exe.className target)) : MachineM Unit) else _) m')
    rw [alike.exe]
    split
    · exact .error _
    · exact .ok rfl

theorem reading_instanceOf (target : UInt16) :
  Reading Eq m m' (instanceOf v target m) (instanceOf w target m')
  := by
  unfold instanceOf
  rcases values.handles with ⟨none_, none_'⟩ | ⟨a, b, named, named', -⟩
  · simp only [none_, none_']
    exact .ok rfl
  · simp only [named, named']
    apply (reading_object heaps values).andThen
    rintro o o' ⟨contents, -⟩
    cases contents with
    | inst class_ along =>
      have same : m.exe.isSubclass class_ target = m'.exe.isSubclass class_ target := by
        rw [alike.exe]
      exact .ok same
    | _ => exact .ok rfl

end

/-! ### Changes of the heap -/

section

variable (alike : m.Alike ρ m')
include alike

theorem Alike.withHeap (within : ρ.Within ρ') {h h' : Heap} (heaps : Heap.AlikeIn ρ' h h') :
  (m.withHeap h).Alike ρ' (m'.withHeap h')
  where
  exe := alike.exe
  natives := alike.natives
  registers := alike.registers
  output := alike.output
  stack := alike.stack.mono within
  globals := alike.globals.mono fun _ _ values => values.mono within
  heap := heaps

theorem matched_modifyHeap {α : Type} {R : Pairing → α → α → Prop} {f : Heap → α × Heap}
    (made : ∃ ρ', ρ.Within ρ' ∧ Heap.AlikeIn ρ' (f m.heap).2 (f m'.heap).2 ∧ R ρ' (f m.heap).1 (f m'.heap).1) :
  Matched R ρ (modifyHeap f m) (modifyHeap f m')
  := by
  obtain ⟨ρ', within, heaps, related⟩ := made
  rw [modifyHeap_eq, modifyHeap_eq]
  exact .ok within (alike.withHeap within heaps) related

theorem matched_allocate {o o' : Object} (objects : o.Alike ρ o') :
  Matched Value.Alike ρ (allocate o m) (allocate o' m')
  := by
  unfold allocate
  rw [modifyHeap_eq, modifyHeap_eq]
  have within := ρ.within_extend (m.heap.alloc o).1 (m'.heap.alloc o').1
  exact .ok within (alike.withHeap within (alike.heap.alloc objects)) (.ref (ρ.extend_self _ _))

theorem matched_newString (text : String) :
  Matched Value.Alike ρ (newString text m) (newString text m')
  := matched_allocate alike (.string text)

/-- Paired objects are changed alike. -/
theorem matched_updateObject (heaps : Heap.Alike ρ m.heap m'.heap) (values : v.Alike ρ w)
    {f f' : Object → Object}
    (changes : ∀ o o', RefersTo v o m.heap → o.Alike ρ o' → (f o).Alike ρ (f' o')) :
  Matched (fun _ _ _ => True) ρ (updateObject v f m) (updateObject w f' m')
  := by
  unfold updateObject
  rcases values.handles with ⟨none_, none_'⟩ | ⟨a, b, named, named', paired⟩
  · rw [none_, none_']
    exact .error (.refl ρ) alike
  · rw [named, named']
    dsimp only
    rw [modifyHeap_eq, modifyHeap_eq]
    refine .ok (.refl ρ) (alike.withHeap (.refl ρ) fun _ _ => ?_) trivial
    apply heaps.update paired
    intro o o' found
    apply changes o o' ⟨a, named, found⟩

theorem matched_arraySet (heaps : Heap.Alike ρ m.heap m'.heap) (values : v.Alike ρ w)
    (values₂ : v₂.Alike ρ w₂) (index : Int64)
    (number : ∀ o, RefersTo v o m.heap → o.holdsNumbers → 0 ≤ index.toInt → index.toInt < o.arrayLength?.getD 0 → v₂.handle? = none) :
  Matched (fun _ _ _ => True) ρ (arraySet v index v₂ m) (arraySet w index w₂ m')
  := by
  apply (reading_object heaps values).bind alike
  rintro o o' ⟨contents, refers⟩
  rw [← contents.arrayLength?_eq]
  apply (reading_checkIndex index _).bind alike
  rintro i _ ⟨rfl, inside, place, positive⟩
  apply matched_updateObject alike heaps values
  intro x x' refers' contents'
  obtain rfl := refers'.unique refers
  apply contents'.setElement i values₂
  intro numbers _
  apply number x refers numbers positive
  omega

theorem matched_setField (heaps : Heap.Alike ρ m.heap m'.heap) (values : v.Alike ρ w)
    (values₂ : v₂.Alike ρ w₂) (index : Nat) :
  Matched (fun _ _ _ => True) ρ (setField v index v₂ m) (setField w index w₂ m')
  := by
  apply (reading_expectInstance heaps values).bind alike
  rintro ⟨class_, fields⟩ ⟨_, fields'⟩ ⟨rfl, along⟩
  dsimp only at along ⊢
  rw [← along.size_eq]
  split
  · apply matched_updateObject alike heaps values
    intro o o' _ contents
    apply contents.setField index values₂
  · exact .error (.refl ρ) alike

theorem matched_convert (conversion : Conversion) (v : Value) :
  Matched Value.Alike ρ (convert conversion v m) (convert conversion v m')
  := by
  cases conversion with
  | intToDouble | doubleToInt => exact .ok (.refl ρ) alike (.word _)
  | _ => apply matched_newString alike

theorem matched_newArray (kind : SlotKind) (size : Int64) :
  Matched Value.Alike ρ (newArray kind size m) (newArray kind size m')
  := by
  unfold newArray
  split
  · exact .error (.refl ρ) alike
  · split
    · exact .error (.refl ρ) alike
    · apply matched_allocate alike
      cases kind with
      | int => exact .ints _
      | double => exact .doubles _
      | object => exact .refs (.replicate _ .null)

end

/-- Array literals of alike items. Where numbers are taken from them, they must be numbers. -/
theorem alike_arrayOfValues (kind : SlotKind) {vs ws : List Value}
    (values : List.Forall₂ (Value.Alike ρ) vs ws)
    (numbers : kind ≠ .object → ∀ v ∈ vs, v.handle? = none) :
  (arrayOfValues kind vs).Alike ρ (arrayOfValues kind ws)
  := by
  cases kind with
  | int =>
    rw [← Value.Alike.list_eq_of_plain values (numbers nofun)]
    exact .ints _
  | double =>
    rw [← Value.Alike.list_eq_of_plain values (numbers nofun)]
    exact .doubles _
  | object =>
    refine .refs (.toArray ?_)
    clear numbers
    induction values with
    | nil => exact .nil
    | cons first rest ih => exact .cons first.ofHandle? ih

theorem matched_newInstance (alike : m.Alike ρ m') (index : Nat) :
  Matched Value.Alike ρ (newInstance index m) (newInstance index m')
  := by
  rw [newInstance_eq, newInstance_eq, alike.exe]
  cases m.exe.classes[index]? with
  | none => exact .error (.refl ρ) alike
  | some c =>
    apply matched_modifyHeap alike
    obtain ⟨ρ', within, heaps, fields⟩ := alike.heap.defaultValues (c.fields.map (·.ty))
    have objects := Object.Alike.inst index.toUInt16 (.toArray fields)
    exact ⟨_, within.trans (ρ'.within_extend _ _), heaps.alloc objects,
      .ref (ρ'.extend_self _ _)⟩

/-! ### Globals -/

theorem reading_getGlobal (alike : m.Alike ρ m') (index : Nat) :
  Reading (Value.Alike ρ) m m' (getGlobal index m) (getGlobal index m')
  := by
  unfold getGlobal
  cases found : m.globals[index]? with
  | none =>
    have outside := Array.getElem?_eq_none_iff.1 found
    rw [alike.globals.size_eq] at outside
    rw [Array.getElem?_eq_none_iff.2 outside]
    exact .error _
  | some v =>
    obtain ⟨w, found', values⟩ := alike.globals.exists_right found
    rw [found']
    exact .ok values

theorem matched_setGlobal (alike : m.Alike ρ m') (values : v.Alike ρ w) (index : Nat) :
  Matched (fun _ _ _ => True) ρ (setGlobal index v m) (setGlobal index w m')
  := by
  unfold setGlobal
  rw [← alike.globals.size_eq]
  split
  · exact .ok (.refl ρ) ⟨alike.exe, alike.natives, alike.registers, alike.output, alike.stack,
      alike.globals.setIfInBounds index values, alike.heap⟩ trivial
  · exact .error (.refl ρ) alike

end

end Machine

/-! ### Plain instructions -/

namespace Instruction

open Machine

/-- The values that an instruction reads as numbers are numbers. -/
def ReadsNumbers (i : Instruction) (vs : List Value) (h : Heap) : Prop :=
  let first := vs.getD 0 .zero
  let second := vs.getD 1 .zero
  let third := vs.getD 2 .zero
  match i.op with
  | .arithInt _ | .arithDouble _ | .minusInt | .minusDouble | .cast _ | .compareInt _
  | .compareDouble _ | .logicalNot | .newArray _ | .newArrayLiteral .int
  | .newArrayLiteral .double => ∀ v ∈ vs, v.handle? = none
  | .pushArray _ => second.handle? = none
  | .popArray _ => third.handle? = none ∧ ∀ o, RefersTo second o h → o.holdsNumbers →
      0 ≤ third.toInt.toInt → third.toInt.toInt < o.arrayLength?.getD 0 → first.handle? = none
  | _ => True

/-- What instructions yield is the same up to the pairing. -/
inductive YieldsAlike (ρ : Pairing) : Option Value → Option Value → Prop
  | none : YieldsAlike ρ none none
  | some {v w : Value} : v.Alike ρ w → YieldsAlike ρ (some v) (some w)

section

variable {m m' : Machine}

theorem matched_some {x y : MachineM Value} (matched : Matched Value.Alike ρ (x m) (y m')) :
  Matched YieldsAlike ρ ((some <$> x) m) ((some <$> y) m')
  := matched.map fun _ _ _ values => .some values

theorem matched_none {x y : MachineM Unit} (matched : Matched (fun _ _ _ => True) ρ (x m) (y m')) :
  Matched YieldsAlike ρ (((fun _ => none) <$> x) m) (((fun _ => none) <$> y) m')
  := matched.map fun _ _ _ _ => .none

theorem matched_literal (alike : m.Alike ρ m') {select : Constant → Option (MachineM Value)}
    (selection : Selection select) (index : Nat) :
  Matched Value.Alike ρ (compute.literal index select m) (compute.literal index select m')
  := by
  rw [compute.literal, bind_of_ok (get_eq m), bind_of_ok (get_eq m'), alike.exe]
  cases found : (m.exe.constants[index]?).bind select with
  | none => exact .error (.refl ρ) alike
  | some x =>
    refine selection.each (P := fun x => Matched _ ρ (x m) (x m')) ?_ (matched_newString alike) found
    intro v plain
    exact .ok (.refl ρ) alike (.refl_of_plain plain)

/-- What a plain instruction computes from alike operands is alike. -/
theorem matched_compute (alike : m.Alike ρ m') (heaps : Heap.Alike ρ m.heap m'.heap)
    {i : Instruction} {vs ws : List Value} (values : List.Forall₂ (Value.Alike ρ) vs ws)
    (numbers : i.ReadsNumbers vs m.heap) :
  Matched YieldsAlike ρ (i.compute vs m) (i.compute ws m')
  := by
  have operand := Value.Alike.getD values
  have word (v : Value) (plain : v.handle? = none) :
      Matched YieldsAlike ρ (.ok (some v) m) (.ok (some v) m') :=
    .ok (.refl ρ) alike (.some (.refl_of_plain plain))
  have read {x y : MachineM Value} (reading : Reading (Value.Alike ρ) m m' (x m) (y m')) :
      Matched YieldsAlike ρ ((some <$> x) m) ((some <$> y) m') :=
    matched_some (reading.matched alike fun _ _ values => values)
  have same (plain : ∀ v ∈ vs, v.handle? = none) : vs = ws :=
    Value.Alike.list_eq_of_plain values plain
  obtain ⟨pc, op, number⟩ := i
  cases op with
  | pushInt => exact matched_some (matched_literal alike .int _)
  | pushDouble => exact matched_some (matched_literal alike .double _)
  | pushString => exact matched_some (matched_literal alike .string _)
  | pushStatic kind => exact read (reading_getGlobal alike _)
  | popStatic kind => exact matched_none (matched_setGlobal alike (operand 0) _)
  | pushArray kind =>
    have index : vs.getD 1 .zero = ws.getD 1 .zero := (operand 1).eq_of_plain numbers
    change Matched _ ρ ((some <$> arrayGet (vs.getD 0 .zero) (vs.getD 1 .zero).toInt) m)
      ((some <$> arrayGet (ws.getD 0 .zero) (ws.getD 1 .zero).toInt) m')
    rw [← index]
    exact read (reading_arrayGet heaps (operand 0) _)
  | popArray kind =>
    have index : vs.getD 2 .zero = ws.getD 2 .zero := (operand 2).eq_of_plain numbers.1
    change Matched _ ρ (((fun _ => none) <$> arraySet (vs.getD 1 .zero)
        (vs.getD 2 .zero).toInt (vs.getD 0 .zero)) m)
      (((fun _ => none) <$> arraySet (ws.getD 1 .zero) (ws.getD 2 .zero).toInt
        (ws.getD 0 .zero)) m')
    rw [← index]
    exact matched_none (matched_arraySet alike heaps (operand 1) (operand 0) _ numbers.2)
  | pushField kind => exact read (reading_getField heaps (operand 0) _)
  | popField kind => exact matched_none (matched_setField alike heaps (operand 1) (operand 0) _)
  | arithInt op =>
    rw [← same numbers]
    change Matched _ ρ ((some <$> arithInts op _ _) m) ((some <$> arithInts op _ _) m')
    apply matched_some
    unfold arithInts
    cases op.onInts (vs.getD 0 .zero).toInt (vs.getD 1 .zero).toInt with
    | ok i => exact .ok (.refl ρ) alike (.word _)
    | error f => exact .error (.refl ρ) alike
  | addString =>
    apply (reading_textOrNull heaps (operand 0)).bind alike
    rintro a _ rfl
    apply (reading_textOrNull heaps (operand 1)).bind alike
    rintro b _ rfl
    apply (matched_newString alike (a ++ b)).bind
    intro ρ' v w m₁ m₁' _ alike₁ strings
    exact .ok (.refl ρ') alike₁ (.some strings)
  | cast conversion =>
    rw [← same numbers]
    exact matched_some (matched_convert alike conversion _)
  | compareString op => exact read (reading_compareStrings heaps op (operand 0) (operand 1))
  | duplicate => exact .ok (.refl ρ) alike (.some (operand 0))
  | pushMethod =>
    refine Matched.map (R := fun _ f f' => f = f')
      ((reading_methodFunction alike heaps (operand 0) _).matched alike fun _ _ same => same) ?_
    rintro ρ' f _ rfl
    exact .some (.word _)
  | new => exact matched_some (matched_newInstance alike _)
  | newArray kind =>
    rw [← same numbers]
    exact matched_some (matched_newArray alike kind _)
  | newArrayLiteral kind =>
    apply matched_some
    apply matched_allocate alike
    apply alike_arrayOfValues kind values
    intro numeric
    cases kind with
    | int | double => exact numbers
    | object => exact absurd rfl numeric
  | arraySize =>
    apply read
    apply (reading_arrayLength heaps (operand 0)).andThen
    rintro n _ rfl
    exact .ok (.word _)
  | stringLength =>
    apply read
    apply (reading_expectString heaps (operand 0)).andThen
    rintro text _ rfl
    exact .ok (.word _)
  | downCast =>
    exact matched_none ((reading_downCast alike heaps (operand 0) _).matched alike
      fun _ _ _ => trivial)
  | instanceOf =>
    apply read
    apply (reading_instanceOf alike heaps (operand 0) _).andThen
    rintro b _ rfl
    exact .ok (.word _)
  | pushInt1Byte | pushInt2Byte | pushFunction | pushDouble0 | pushDouble1 | pushNull =>
    exact word _ rfl
  | arithDouble op | minusInt | minusDouble | compareInt op | compareDouble op | logicalNot =>
    rw [← same numbers]
    exact word _ rfl
  | eqObject =>
    change Matched _ ρ _ (.ok (some (Value.ofBool
      (((ws.getD 0 .zero).handle? == (ws.getD 1 .zero).handle?) == true))) m')
    rw [← heaps.sameObject (operand 0) (operand 1)]
    exact word _ rfl
  | neObject =>
    change Matched _ ρ _ (.ok (some (Value.ofBool
      (((ws.getD 0 .zero).handle? == (ws.getD 1 .zero).handle?) == false))) m')
    rw [← heaps.sameObject (operand 0) (operand 1)]
    exact word _ rfl
  | _ => exact .ok (.refl ρ) alike .none

end

end Instruction

end Bytecode
