import Mathlib
import Bytecode.Proofs.Action
import Bytecode.Stack

/-!
# The top of the stack

`Stack.Holds low vs` says that the cells in use from `low` on are the values `vs`. Under it the
actions on the stack do what they are meant to: values are read and dropped without a crash, and
a push adds one above them, unless the stack cannot grow.

A patch puts other contents into some cells. An action that commutes with the patches of a set of
cells neither reads nor writes them.
-/

namespace Bytecode

/-- The call record in a cell that is no value. -/
def Cell.info? : Cell → Option CallInfo
  | .value _ => none
  | .call info => some info

namespace Stack

variable {s s' : Stack} {v : Value} {low count index needed : Nat} {cell : Cell}
  {us vs : List Value}

/-- The cells in use from a place on hold the given values, the lowest first. -/
structure Holds (low : Nat) (vs : List Value) (s : Stack) : Prop where
  sp_eq : s.sp = low + vs.length
  fits : s.sp ≤ s.cells.size
  cell : ∀ k v, vs[k]? = some v → s.cells[low + k]? = some (.value v)

/-- So many cells fewer are in use. -/
def lowered (count : Nat) (s : Stack) : Stack := { s with sp := s.sp - count }

@[simp] theorem lowered_zero (s : Stack) :
  s.lowered 0 = s
  := rfl

@[simp] theorem lowered_cells (count : Nat) (s : Stack) :
  (s.lowered count).cells = s.cells
  := rfl

@[simp] theorem lowered_sp (count : Nat) (s : Stack) :
  (s.lowered count).sp = s.sp - count
  := rfl

@[simp] theorem lowered_lowered (count count' : Nat) (s : Stack) :
  (s.lowered count).lowered count' = s.lowered (count + count')
  := by
  simp only [lowered, Nat.sub_sub]

theorem get_of_value (found : s.cells[index]? = some (.value v)) :
  get index s = .ok v s
  := by
  unfold get
  rw [found]

/-- Where all cells in use from a place on are values, the stack holds them. -/
theorem exists_holds (le : low ≤ s.sp) (fits : s.sp ≤ s.cells.size)
    (values : ∀ k, low ≤ k → k < s.sp → ∃ v, s.cells[k]? = some (.value v)) :
  ∃ vs, vs.length = s.sp - low ∧ s.Holds low vs
  := by
  have collected : ∀ n, low + n ≤ s.sp → ∃ vs : List Value, vs.length = n
      ∧ ∀ k v, vs[k]? = some v → s.cells[low + k]? = some (.value v) := by
    intro n
    induction n with
    | zero => exact fun _ => ⟨[], rfl, nofun⟩
    | succ n ih =>
      intro inside
      obtain ⟨vs, length, cell⟩ := ih (by omega)
      obtain ⟨v, last⟩ := values (low + n) (by omega) (by omega)
      refine ⟨vs ++ [v], by simp [length], ?_⟩
      intro k w found
      rcases Nat.lt_trichotomy k vs.length with before | rfl | after
      · rw [List.getElem?_append_left before] at found
        exact cell k w found
      · simp only [List.getElem?_concat_length, Option.some.injEq] at found
        rw [length, ← found, last]
      · rw [List.getElem?_eq_none (by simp; omega)] at found
        cases found
  obtain ⟨vs, length, cell⟩ := collected (s.sp - low) (by omega)
  exact ⟨vs, length, by omega, fits, cell⟩

namespace Holds

variable {low : Nat} {vs us : List Value} {v : Value} {s : Stack}

theorem le_sp (h : s.Holds low vs) :
  low ≤ s.sp
  := by
  have sp := h.sp_eq
  omega

/-- The upper ones of the values. -/
theorem upper (h : s.Holds low (us ++ vs)) :
  s.Holds (low + us.length) vs
  where
  sp_eq := by
    rw [h.sp_eq, List.length_append, Nat.add_assoc]
  fits := h.fits
  cell k v found := by
    rw [Nat.add_assoc]
    apply h.cell
    rw [List.getElem?_append_right (by omega), Nat.add_sub_cancel_left, found]

/-- The lower ones of the values are left when the others are dropped. -/
theorem lowered (h : s.Holds low (us ++ vs)) :
  (s.lowered vs.length).Holds low us
  where
  sp_eq := by
    have sp := h.sp_eq
    rw [List.length_append] at sp
    change s.sp - vs.length = _
    omega
  fits := by
    have fits := h.fits
    change s.sp - vs.length ≤ s.cells.size
    omega
  cell k v found := by
    apply h.cell
    rw [List.getElem?_append_left (List.getElem?_eq_some_iff.1 found).1, found]

/-- When some values are dropped, the others are left. -/
theorem lowered_take (h : s.Holds low vs) {count : Nat} (enough : count ≤ vs.length) :
  (s.lowered count).Holds low (vs.take (vs.length - count))
  := by
  have split := h
  rw [← List.take_append_drop (vs.length - count) vs] at split
  have left := split.lowered
  rw [List.length_drop, Nat.sub_sub_self enough] at left
  exact left

theorem top (h : s.Holds low vs) :
  Stack.top vs.length s = .ok vs s
  := by
  have sp := h.sp_eq
  have fits := h.fits
  have values : (s.cells.extract (s.sp - vs.length) s.sp).toList.map Cell.valueOrZero = vs := by
    apply List.ext_getElem?
    intro k
    simp only [List.getElem?_map, Array.getElem?_toList, Array.getElem?_extract]
    by_cases inside : k < vs.length
    · have found := h.cell k vs[k] (List.getElem?_eq_getElem inside)
      have place : s.sp - vs.length + k = low + k := by omega
      rw [if_pos (by omega), place, found, List.getElem?_eq_getElem inside]
      rfl
    · rw [if_neg (by omega), List.getElem?_eq_none (by omega)]
      rfl
  unfold Stack.top
  rw [if_pos (by omega), values]

theorem get (h : s.Holds low (us ++ v :: vs)) :
  Stack.get (low + us.length) s = .ok v s
  := get_of_value (h.cell us.length v (by simp))

theorem fromTop (h : s.Holds low (us ++ v :: vs)) :
  Stack.fromTop vs.length s = .ok (low + us.length) s
  := by
  have sp := h.sp_eq
  rw [List.length_append, List.length_cons] at sp
  unfold Stack.fromTop
  rw [if_pos (by omega)]
  congr 1
  omega

theorem peek (h : s.Holds low (us ++ v :: vs)) :
  Stack.peek vs.length s = .ok v s
  := by
  unfold Stack.peek
  rw [bind_of_ok h.fromTop, h.get]

end Holds

theorem shrink_eq (enough : count ≤ s.sp) :
  shrink count s = .ok () (s.lowered count)
  := if_pos enough

theorem Holds.shrink (h : s.Holds low (us ++ vs)) :
  Stack.shrink vs.length s = .ok () (s.lowered vs.length)
  := by
  have sp := h.sp_eq
  rw [List.length_append] at sp
  exact shrink_eq (by omega)

theorem Holds.pop (h : s.Holds low (us ++ [v])) :
  Stack.pop s = .ok v (s.lowered 1)
  := by
  have place : (s.lowered 1).sp = low + us.length := h.lowered.sp_eq
  have shrunk : Stack.shrink 1 s = .ok () (s.lowered 1) := h.shrink
  have found := h.cell us.length v (by simp)
  unfold Stack.pop
  rw [bind_of_ok shrunk]
  change Stack.get (s.lowered 1).sp (s.lowered 1) = _
  rw [place]
  exact get_of_value found

/-! ### Pushing -/

/-- The stack cannot grow by so many cells, because an array that large cannot be addressed. -/
def CannotGrow (needed : Nat) (s : Stack) : Prop :=
  2 ^ 64 ≤ s.sp + needed
    ∨ s.sp + needed ≤ s.limit ∧ unaddressable ≤ s.grownSize (s.sp + needed)

/-- There is room for so many more cells, and nothing else has changed. -/
structure Reserved (needed : Nat) (s s' : Stack) : Prop where
  sp_eq : s'.sp = s.sp
  limit_eq : s'.limit = s.limit
  room : s.sp + needed ≤ s'.cells.size
  size_le : s.cells.size ≤ s'.cells.size
  cells : ∀ k, k < s.cells.size → s'.cells[k]? = s.cells[k]?

theorem reserve_eq_ok (run : reserve needed s = .ok () s') :
  Reserved needed s s'
  := by
  unfold reserve at run
  simp only at run
  split at run
  · cases run
  · split at run
    · next room =>
        cases run
        exact ⟨rfl, rfl, room, Nat.le_refl _, fun _ _ => rfl⟩
    · split at run
      · cases run
      · split at run
        · cases run
        · next small tight allowed _ =>
            cases run
            have grown : s.sp + needed ≤ s.grownSize (s.sp + needed) := by
              unfold grownSize
              omega
            have size : (s.grow (s.grownSize (s.sp + needed))).cells.size
                = s.cells.size + (s.grownSize (s.sp + needed) - s.cells.size) := by
              simp [grow]
            refine ⟨rfl, rfl, by omega, by omega, ?_⟩
            intro k inside
            exact Array.getElem?_append_left inside

theorem reserve_eq_error {trap : Trap} (run : reserve needed s = .error trap s') :
  s' = s ∧ (trap = .error (.stackOverflow s.limit) ∧ s.limit < s.sp + needed
    ∨ trap = .crash ∧ s.CannotGrow needed)
  := by
  unfold reserve at run
  simp only at run
  split at run
  · next large =>
      cases run
      exact ⟨rfl, .inr ⟨rfl, .inl large⟩⟩
  · split at run
    · cases run
    · split at run
      · next full =>
          cases run
          exact ⟨rfl, .inl ⟨rfl, full⟩⟩
      · split at run
        · next allowed large =>
            cases run
            exact ⟨rfl, .inr ⟨rfl, .inr ⟨by omega, large⟩⟩⟩
        · cases run

theorem set_eq (inside : index < s.cells.size) :
  set index v s = .ok () { s with cells := s.cells.setIfInBounds index (.value v) }
  := by
  unfold set
  rw [dif_pos inside, Array.setIfInBounds, dif_pos inside]

theorem place_eq (room : s.sp < s.cells.size) :
  place cell s
    = .ok () { s with cells := s.cells.setIfInBounds s.sp cell, sp := s.sp + 1 }
  := by
  unfold place
  rw [dif_pos room, Array.setIfInBounds, dif_pos room]

theorem pushCell_eq_of_lt (room : s.sp < s.cells.size) :
  pushCell cell s
    = .ok () { s with cells := s.cells.setIfInBounds s.sp cell, sp := s.sp + 1 }
  := by
  unfold pushCell
  rw [if_neg (by omega), place_eq room]

/-- A cell has been added above the others. -/
structure Pushed (cell : Cell) (s s' : Stack) : Prop where
  sp_eq : s'.sp = s.sp + 1
  limit_eq : s'.limit = s.limit
  fits : s.sp < s'.cells.size
  size_le : s.cells.size ≤ s'.cells.size
  top : s'.cells[s.sp]? = some cell
  others : ∀ k, k ≠ s.sp → k < s.cells.size → s'.cells[k]? = s.cells[k]?

theorem place_eq_ok (run : place cell s = .ok () s') :
  Pushed cell s s'
  := by
  unfold place at run
  split at run
  · next room =>
      cases run
      refine ⟨rfl, rfl, by simpa using room, by simp, by simp, ?_⟩
      intro k other _
      exact Array.getElem?_set_ne room (Ne.symm other)
  · cases run

theorem pushCell_eq_ok (run : pushCell cell s = .ok () s') :
  Pushed cell s s'
  := by
  unfold pushCell at run
  split at run
  · cases made : reserve 1 s with
    | ok _ s₁ =>
        rw [made] at run
        have reserved := reserve_eq_ok made
        obtain ⟨sp_eq, limit_eq, fits, size_le, top, others⟩ := place_eq_ok run
        rw [reserved.sp_eq] at sp_eq fits top others
        refine ⟨sp_eq, limit_eq.trans reserved.limit_eq, fits,
          Nat.le_trans reserved.size_le size_le, top, ?_⟩
        intro k other inside
        rw [others k other (Nat.lt_of_lt_of_le inside reserved.size_le),
          reserved.cells k inside]
    | error trap s₁ =>
        rw [made] at run
        cases run
  · exact place_eq_ok run

theorem pushCell_eq_error {trap : Trap} (fits : s.sp ≤ s.cells.size)
    (run : pushCell cell s = .error trap s') :
  s' = s ∧ s.sp = s.cells.size ∧ (trap = .error (.stackOverflow s.limit) ∧ s.limit < s.sp + 1
    ∨ trap = .crash ∧ s.CannotGrow 1)
  := by
  by_cases full : s.sp = s.cells.size
  · unfold pushCell at run
    rw [if_pos full] at run
    cases made : reserve 1 s with
    | ok _ s₁ =>
      rw [made] at run
      have reserved := reserve_eq_ok made
      have room := reserved.room
      simp only at run
      rw [place_eq (by rw [reserved.sp_eq]; omega)] at run
      cases run
    | error trap s₁ =>
      rw [made] at run
      cases run
      obtain ⟨same, cause⟩ := reserve_eq_error made
      exact ⟨same, full, cause⟩
  · rw [pushCell_eq_of_lt (by omega)] at run
    cases run

/-- A cell can be pushed only if the stack pointer lies within the array. -/
theorem fits_of_pushCell (run : pushCell cell s = .ok () s') :
  s.sp ≤ s.cells.size
  := by
  unfold pushCell at run
  split at run
  · next full => exact Nat.le_of_eq full
  · unfold place at run
    split at run
    · next room => exact Nat.le_of_lt room
    · cases run

/-- Room for one more cell suffices for a push. -/
theorem exists_pushCell (fits : s.sp ≤ s.cells.size) (cell : Cell) {s₁ : Stack}
    (room : reserve 1 s = .ok () s₁) :
  ∃ s', pushCell cell s = .ok () s'
  := by
  cases pushed : pushCell cell s with
  | ok _ s' => exact ⟨s', rfl⟩
  | error trap s' =>
    obtain ⟨-, full, -⟩ := pushCell_eq_error fits pushed
    have reserved := reserve_eq_ok room
    have size := reserved.room
    unfold pushCell at pushed
    rw [if_pos full, room] at pushed
    dsimp only at pushed
    rw [place_eq (by rw [reserved.sp_eq]; omega)] at pushed
    cases pushed

/-- Cells have been added above the others. -/
structure Extended (added : List Cell) (s s' : Stack) : Prop where
  sp_eq : s'.sp = s.sp + added.length
  limit_eq : s'.limit = s.limit
  fits : s.sp ≤ s.cells.size ∨ added ≠ [] → s'.sp ≤ s'.cells.size
  size_le : s.cells.size ≤ s'.cells.size
  cell : ∀ k c, added[k]? = some c → s'.cells[s.sp + k]? = some c
  below : ∀ k, k < s.sp → k < s.cells.size → s'.cells[k]? = s.cells[k]?

theorem Extended.refl (s : Stack) :
  Extended [] s s
  := ⟨rfl, rfl, fun fits => fits.resolve_right fun nonempty => nonempty rfl, Nat.le_refl _, nofun,
    fun _ _ _ => rfl⟩

theorem Pushed.extended (pushed : Pushed cell s s') :
  Extended [cell] s s'
  := by
  obtain ⟨sp_eq, limit_eq, fits, size_le, top, others⟩ := pushed
  refine ⟨sp_eq, limit_eq, fun _ => by omega, size_le, ?_, ?_⟩
  · intro k c found
    obtain ⟨rfl, rfl⟩ : k = 0 ∧ cell = c := by
      cases k with
      | zero => simpa using found
      | succ k => simp at found
    exact top
  · intro k under inside
    exact others k (by omega) inside

theorem Extended.trans {cs ds : List Cell} {s'' : Stack} (first : Extended cs s s')
    (second : Extended ds s' s'') :
  Extended (cs ++ ds) s s''
  := by
  have sp := first.sp_eq
  have fits : s.sp ≤ s.cells.size ∨ cs ≠ [] → s'.sp ≤ s'.cells.size := first.fits
  refine ⟨?_, second.limit_eq.trans first.limit_eq, ?_, Nat.le_trans first.size_le second.size_le,
    ?_, ?_⟩
  · rw [second.sp_eq, sp, List.length_append, Nat.add_assoc]
  · intro room
    apply second.fits
    by_cases empty : ds = []
    · left
      apply fits
      simpa [empty] using room
    · exact .inr empty
  · intro k c found
    by_cases inFirst : k < cs.length
    · rw [List.getElem?_append_left inFirst] at found
      have nonempty : cs ≠ [] := List.ne_nil_of_length_pos (by omega)
      have inside := fits (.inr nonempty)
      rw [second.below (s.sp + k) (by omega) (by omega), first.cell k c found]
    · rw [List.getElem?_append_right (by omega)] at found
      have place : s.sp + k = s'.sp + (k - cs.length) := by omega
      rw [place, second.cell _ c found]
  · intro k under inside
    have grown := first.size_le
    rw [second.below k (by omega) (by omega), first.below k under inside]

theorem Reserved.extended (reserved : Reserved needed s s') :
  Extended [] s s'
  := by
  have room := reserved.room
  have sp := reserved.sp_eq
  exact ⟨sp, reserved.limit_eq, fun _ => by omega, reserved.size_le, nofun,
    fun k _ inside => reserved.cells k inside⟩

/-- The values held stay below one that is pushed. -/
theorem Holds.push (h : s.Holds low vs) (run : Stack.push v s = .ok () s') :
  s'.Holds low (vs ++ [v])
  := by
  obtain ⟨sp_eq, -, fits, -, top, others⟩ := pushCell_eq_ok run
  have sp := h.sp_eq
  have inside := h.fits
  refine ⟨by rw [sp_eq, sp]; simp; omega, by omega, ?_⟩
  intro k w found
  rcases Nat.lt_trichotomy k vs.length with before | rfl | after
  · rw [List.getElem?_append_left before] at found
    rw [others (low + k) (by omega) (by omega), h.cell k w found]
  · simp only [List.getElem?_concat_length, Option.some.injEq] at found
    rw [← found, ← sp, top]
  · rw [List.getElem?_eq_none (by simp; omega)] at found
    cases found

/-- Overwriting the top value amounts to dropping it and pushing another one. -/
theorem Holds.replace {w : Value} (h : s.Holds low (us ++ [v])) :
  Stack.replace 0 w s = Stack.push w (s.lowered 1)
  := by
  have sp := h.sp_eq
  have fits := h.fits
  rw [List.length_append, List.length_singleton] at sp
  have place : s.sp - 1 = low + us.length := by omega
  have room : (s.lowered 1).sp < (s.lowered 1).cells.size := by
    change s.sp - 1 < s.cells.size
    omega
  have top : Stack.fromTop 0 s = .ok (low + us.length) s := h.fromTop
  unfold Stack.replace Stack.push
  rw [bind_of_ok top, pushCell_eq_of_lt room, set_eq (by omega), ← place]
  simp only [Stack.lowered]
  congr 2
  omega

/-- The values held do not depend on the cells below them. -/
theorem Holds.set_below (h : s.Holds low vs) (below : index < low) :
  ({ s with cells := s.cells.setIfInBounds index cell } : Stack).Holds low vs
  where
  sp_eq := h.sp_eq
  fits := by
    rw [Array.size_setIfInBounds]
    exact h.fits
  cell k v listed := by
    rw [Array.getElem?_setIfInBounds_ne (by omega)]
    exact h.cell k v listed

/-- From a place on the cells in use are now the given values; below it nothing has changed. -/
structure Rewritten (low : Nat) (vs : List Value) (s s' : Stack) : Prop where
  holds : s'.Holds low vs
  below : ∀ k, k < low → s'.cells[k]? = s.cells[k]?
  limit_eq : s'.limit = s.limit

theorem Rewritten.lowered (h : s.Holds low vs) (enough : count ≤ vs.length) :
  Rewritten low (vs.take (vs.length - count)) s (s.lowered count)
  := ⟨h.lowered_take enough, fun _ _ => rfl, rfl⟩

theorem Rewritten.push {s'' : Stack} (first : Rewritten low vs s s')
    (run : Stack.push v s' = .ok () s'') :
  Rewritten low (vs ++ [v]) s s''
  := by
  have pushed := pushCell_eq_ok run
  have le := first.holds.le_sp
  have fits := first.holds.fits
  refine ⟨first.holds.push run, ?_, pushed.limit_eq.trans first.limit_eq⟩
  intro k under
  rw [pushed.others k (by omega) (by omega), first.below k under]

/-- The values below those that are rewritten stay. -/
theorem Rewritten.joined {ws : List Value} (h : s.Holds low (us ++ ws)) {xs : List Value}
    (rewritten : s.Rewritten (low + us.length) xs s') :
  s'.Holds low (us ++ xs)
  := by
  refine ⟨?_, rewritten.holds.fits, ?_⟩
  · rw [rewritten.holds.sp_eq, List.length_append, Nat.add_assoc]
  · intro k v found
    by_cases inside : k < us.length
    · rw [List.getElem?_append_left inside] at found
      rw [rewritten.below _ (by omega)]
      apply h.cell
      rw [List.getElem?_append_left inside, found]
    · rw [List.getElem?_append_right (by omega)] at found
      have cell := rewritten.holds.cell _ v found
      rwa [show low + us.length + (k - us.length) = low + k by omega] at cell

/-! ### Actions that have succeeded -/

theorem fromTop_eq_ok {depth : Nat} (run : fromTop depth s = .ok index s') :
  depth < s.sp ∧ index = s.sp - 1 - depth ∧ s' = s
  := by
  unfold fromTop at run
  split at run
  · next enough =>
      cases run
      exact ⟨enough, rfl, rfl⟩
  · cases run

theorem get_eq_ok (run : get index s = .ok v s') :
  s.cells[index]? = some (.value v) ∧ s' = s
  := by
  unfold get at run
  split at run
  · next found =>
      cases run
      exact ⟨found, rfl⟩
  · cases run

theorem set_eq_ok (run : set index v s = .ok () s') :
  index < s.cells.size ∧ s' = { s with cells := s.cells.setIfInBounds index (.value v) }
  := by
  by_cases inside : index < s.cells.size
  · rw [set_eq inside] at run
    cases run
    exact ⟨inside, rfl⟩
  · unfold set at run
    rw [dif_neg inside] at run
    cases run

theorem shrink_eq_ok (run : shrink count s = .ok () s') :
  count ≤ s.sp ∧ s' = s.lowered count
  := by
  unfold shrink at run
  split at run
  · next enough =>
      cases run
      exact ⟨enough, rfl⟩
  · cases run

theorem pop_eq_ok (run : pop s = .ok v s') :
  0 < s.sp ∧ s' = s.lowered 1 ∧ s.cells[s.sp - 1]? = some (.value v)
  := by
  obtain ⟨_, s₁, shrunk, rest⟩ := bind_eq_ok.1 run
  obtain ⟨enough, rfl⟩ := shrink_eq_ok shrunk
  change get (s.lowered 1).sp (s.lowered 1) = _ at rest
  obtain ⟨found, rfl⟩ := get_eq_ok rest
  exact ⟨enough, rfl, found⟩

theorem top_eq_ok (run : top count s = .ok vs s') :
  (count ≤ s.sp ∧ s.sp ≤ s.cells.size) ∧ s' = s
  := by
  unfold top at run
  split at run
  · next enough =>
      cases run
      exact ⟨enough, rfl⟩
  · cases run

/-! ### Patches -/

/-- Other contents for some cells. -/
def patched (q : Nat → Option Cell) (s : Stack) : Stack :=
  { s with cells := s.cells.mapIdx fun k cell => (q k).getD cell }

section

variable {q : Nat → Option Cell} {s : Stack} {low : Nat}

@[simp] theorem patched_sp :
  (s.patched q).sp = s.sp
  := rfl

@[simp] theorem patched_limit :
  (s.patched q).limit = s.limit
  := rfl

@[simp] theorem size_patched :
  (s.patched q).cells.size = s.cells.size
  := Array.size_mapIdx

@[simp] theorem getElem?_patched (k : Nat) :
  (s.patched q).cells[k]? = (s.cells[k]?).map fun cell => (q k).getD cell
  := Array.getElem?_mapIdx

theorem getElem?_patched_of_none {k : Nat} (spared : q k = none) :
  (s.patched q).cells[k]? = s.cells[k]?
  := by
  rw [getElem?_patched, spared]
  simp

theorem Holds.patched {vs : List Value} (h : s.Holds low vs) (spared : ∀ k, low ≤ k → q k = none) :
  (s.patched q).Holds low vs
  where
  sp_eq := h.sp_eq
  fits := by
    rw [size_patched]
    exact h.fits
  cell k v found := by
    rw [getElem?_patched_of_none (spared _ (Nat.le_add_right _ _)), h.cell k v found]

theorem patched_set {k : Nat} {cell : Cell} (spared : q k = none) :
  { s with cells := s.cells.setIfInBounds k cell }.patched q
    = { s with cells := (s.patched q).cells.setIfInBounds k cell }
  := by
  unfold Stack.patched
  congr 1
  apply Array.ext_getElem?
  intro j
  simp only [Array.getElem?_mapIdx, Array.getElem?_setIfInBounds, Array.size_mapIdx]
  by_cases same : k = j
  · subst same
    by_cases inside : k < s.cells.size
    · simp [inside, spared]
    · simp [inside]
  · simp [same]

theorem shrink_patched (count : Nat) :
  shrink count (s.patched q) = onState (patched q) (shrink count s)
  := by
  unfold shrink
  rw [patched_sp]
  split
  all_goals rfl

theorem reserve_patched (spared : ∀ k, s.cells.size ≤ k → q k = none) (needed : Nat) :
  reserve needed (s.patched q) = onState (patched q) (reserve needed s)
  := by
  have grown (size : Nat) : (s.patched q).grow size = (s.grow size).patched q := by
    unfold Stack.grow Stack.patched
    simp only [Array.size_mapIdx]
    congr 1
    apply Array.ext_getElem?
    intro j
    simp only [Array.getElem?_mapIdx, Array.getElem?_append, Array.size_mapIdx]
    split
    · rfl
    · next outside => simp [spared j (by omega)]
  unfold reserve grownSize
  simp only [patched_sp, patched_limit, size_patched, grown]
  split
  · rfl
  · split
    · rfl
    · split
      · rfl
      · split
        all_goals rfl

theorem place_patched (spared : q s.sp = none) (cell : Cell) :
  place cell (s.patched q) = onState (patched q) (place cell s)
  := by
  by_cases room : s.sp < s.cells.size
  · rw [place_eq room, place_eq (by simpa using room)]
    have same : _ = (s.patched q).cells.setIfInBounds s.sp cell :=
      congrArg Stack.cells (patched_set spared)
    change EStateM.Result.ok () (Stack.mk _ _ _) = .ok () (Stack.mk _ _ _)
    congr 2
    exact same.symm
  · unfold place
    rw [dif_neg room, dif_neg (by simpa using room)]
    rfl

theorem pushCell_patched (spared : ∀ k, s.sp ≤ k → q k = none)
    (cell : Cell) :
  pushCell cell (s.patched q) = onState (patched q) (pushCell cell s)
  := by
  unfold pushCell
  rw [patched_sp, size_patched]
  split
  · rw [reserve_patched fun k outside => spared k (by omega)]
    cases made : reserve 1 s with
    | ok _ s₁ =>
      have reserved := reserve_eq_ok made
      exact place_patched (by rw [reserved.sp_eq]; exact spared _ (Nat.le_refl _)) cell
    | error trap s₁ => rfl
  · exact place_patched (spared _ (Nat.le_refl _)) cell

end

end Stack

end Bytecode
