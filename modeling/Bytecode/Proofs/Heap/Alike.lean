import Mathlib
import Bytecode.Proofs.Heap.Sound

/-!
# Heaps that are alike

Two heaps may hold the same objects under different handles, and garbage besides them. A `Pairing`
says which handles stand for each other. `Value.Alike`, `Object.Alike` and `Heap.Alike` say that
values, objects and heaps are the same up to the pairing: words are equal, references are paired,
and paired handles have objects of the same kind with the same contents. No handle has two
partners.

An allocation on both sides adds a pair, a change of paired objects keeps the pairing, and a
collection on either side keeps the pairs of handles that are reached from the roots.
-/

namespace Bytecode

/-- Which handles of two heaps stand for each other. -/
abbrev Pairing := Handle → Handle → Prop

namespace Pairing

/-- All pairs of one pairing are pairs of another. -/
def Within (ρ ρ' : Pairing) : Prop := ∀ a b, ρ a b → ρ' a b

theorem Within.refl (ρ : Pairing) :
  Within ρ ρ
  := fun _ _ paired => paired

theorem Within.trans {ρ ρ' ρ'' : Pairing} (first : Within ρ ρ') (second : Within ρ' ρ'') :
  Within ρ ρ''
  := fun a b paired => second a b (first a b paired)

/-- One more pair. -/
def extend (ρ : Pairing) (a b : Handle) : Pairing := fun x y => ρ x y ∨ x = a ∧ y = b

theorem within_extend (ρ : Pairing) (a b : Handle) :
  Within ρ (ρ.extend a b)
  := fun _ _ paired => .inl paired

theorem extend_self (ρ : Pairing) (a b : Handle) :
  ρ.extend a b a b
  := .inr ⟨rfl, rfl⟩

/-- The pairing seen from the other side. -/
def swap (ρ : Pairing) : Pairing := fun a b => ρ b a

end Pairing

variable {ρ ρ' : Pairing}

/-! ### Values -/

/-- The values are the same up to the pairing. -/
inductive Value.Alike (ρ : Pairing) : Value → Value → Prop
  | word (bits : UInt64) : Alike ρ (.word bits) (.word bits)
  | null : Alike ρ .null .null
  | ref {a b : Handle} : ρ a b → Alike ρ (.ref a) (.ref b)

namespace Value.Alike

variable {v w : Value}

theorem mono (alike : Alike ρ v w) (within : ρ.Within ρ') :
  Alike ρ' v w
  := by
  cases alike with
  | word bits => exact .word bits
  | null => exact .null
  | ref paired => exact .ref (within _ _ paired)

theorem symm (alike : Alike ρ v w) :
  Alike ρ.swap w v
  := by
  cases alike with
  | word bits => exact .word bits
  | null => exact .null
  | ref paired => exact .ref paired

theorem refl_of_plain (plain : v.handle? = none) :
  Alike ρ v v
  := by
  cases v with
  | word bits => exact .word bits
  | null => exact .null
  | ref handle => cases plain

/-- Values that are no references are alike only if they are equal. -/
theorem eq_of_plain (alike : Alike ρ v w) (plain : v.handle? = none) :
  v = w
  := by
  cases alike with
  | word bits => rfl
  | null => rfl
  | ref _ => cases plain

/-- Both values refer to nothing, or to paired objects. -/
theorem handles (alike : Alike ρ v w) :
  v.handle? = none ∧ w.handle? = none
    ∨ ∃ a b, v.handle? = some a ∧ w.handle? = some b ∧ ρ a b
  := by
  cases alike with
  | word bits | null => exact .inl ⟨rfl, rfl⟩
  | ref paired => exact .inr ⟨_, _, rfl, rfl, paired⟩

theorem isNull_eq (alike : Alike ρ v w) :
  v.isNull = w.isNull
  := by
  cases alike with
  | word bits | null | ref _ => rfl

/-- What an array of references takes from the values is alike. -/
theorem ofHandle? (alike : Alike ρ v w) :
  Alike ρ (.ofHandle? v.handle?) (.ofHandle? w.handle?)
  := by
  cases alike with
  | word bits | null => exact .null
  | ref paired => exact .ref paired

/-- Lists of values that are no references are alike only if they are equal. -/
theorem list_eq_of_plain {vs ws : List Value} (values : List.Forall₂ (Alike ρ) vs ws)
    (plain : ∀ v ∈ vs, v.handle? = none) :
  vs = ws
  := by
  induction values with
  | nil => rfl
  | cons first rest ih =>
    rw [first.eq_of_plain (plain _ List.mem_cons_self),
      ih fun v listed => plain v (List.mem_cons_of_mem _ listed)]

/-- Operands in the same place are alike, also where there are none. -/
theorem getD {vs ws : List Value} (values : List.Forall₂ (Alike ρ) vs ws) (k : Nat) :
  Alike ρ (vs.getD k .zero) (ws.getD k .zero)
  := by
  induction values generalizing k with
  | nil => exact .word 0
  | cons first rest ih =>
    cases k with
    | zero => exact first
    | succ k => exact ih k

end Value.Alike

/-! ### Arrays -/

/-- The arrays are equally long, and elements at the same place are related. -/
structure Alongside {α : Type} (R : α → α → Prop) (xs ys : Array α) : Prop where
  size_eq : xs.size = ys.size
  each : ∀ (k : Nat) x y, xs[k]? = some x → ys[k]? = some y → R x y

namespace Alongside

variable {α : Type} {R S : α → α → Prop} {xs ys : Array α}

theorem mono (along : Alongside R xs ys) (weaker : ∀ x y, R x y → S x y) :
  Alongside S xs ys
  := ⟨along.size_eq, fun k x y found found' => weaker x y (along.each k x y found found')⟩

theorem symm (along : Alongside R xs ys) (converse : ∀ x y, R x y → S y x) :
  Alongside S ys xs
  := ⟨along.size_eq.symm, fun k y x found found' => converse x y (along.each k x y found' found)⟩

/-- Where one array has an element, the other one has one that is related to it. -/
theorem exists_right (along : Alongside R xs ys) {k : Nat} {x : α} (found : xs[k]? = some x) :
  ∃ y, ys[k]? = some y ∧ R x y
  := by
  have inside := (Array.getElem?_eq_some_iff.1 found).1
  rw [along.size_eq] at inside
  have there := Array.getElem?_eq_getElem inside
  exact ⟨_, there, along.each k x _ found there⟩

theorem setIfInBounds (along : Alongside R xs ys) (i : Nat) {x y : α} (related : R x y) :
  Alongside R (xs.setIfInBounds i x) (ys.setIfInBounds i y)
  where
  size_eq := by
    rw [Array.size_setIfInBounds, Array.size_setIfInBounds, along.size_eq]
  each k x' y' found found' := by
    rw [Array.getElem?_setIfInBounds] at found found'
    split at found
    · next same =>
        rw [if_pos same, ← along.size_eq] at found'
        split at found
        · next inside =>
            rw [if_pos inside] at found'
            cases found
            cases found'
            exact related
        · cases found
    · next other =>
        rw [if_neg other] at found'
        apply along.each k x' y' found found'

theorem toArray {xs ys : List α} (related : List.Forall₂ R xs ys) :
  Alongside R xs.toArray ys.toArray
  where
  size_eq := related.length_eq
  each k x y found found' := by
    rw [List.getElem?_toArray] at found found'
    obtain ⟨inside, rfl⟩ := List.getElem?_eq_some_iff.1 found
    obtain ⟨inside', rfl⟩ := List.getElem?_eq_some_iff.1 found'
    apply related.get

theorem replicate (n : Nat) {x y : α} (related : R x y) :
  Alongside R (Array.replicate n x) (Array.replicate n y)
  where
  size_eq := by simp
  each k x' y' found found' := by
    rw [Array.getElem?_replicate] at found found'
    split at found
    · next inside =>
        rw [if_pos inside] at found'
        cases found
        cases found'
        exact related
    · cases found

end Alongside

/-! ### Objects -/

/-- The elements of two arrays of references are the same up to the pairing. -/
def ItemAlike (ρ : Pairing) (a b : Option Handle) : Prop :=
  Value.Alike ρ (.ofHandle? a) (.ofHandle? b)

/-- An array that takes numbers from the values put into it. -/
def Object.holdsNumbers : Object → Bool
  | .ints _ | .doubles _ => true
  | _ => false

/-- The objects are of the same kind and have contents that are the same up to the pairing. -/
inductive Object.Alike (ρ : Pairing) : Object → Object → Prop
  | string (text : String) : Alike ρ (.string text) (.string text)
  | ints (items : Array Int64) : Alike ρ (.ints items) (.ints items)
  | doubles (items : Array Double) : Alike ρ (.doubles items) (.doubles items)
  | refs {items items' : Array (Option Handle)} :
      Alongside (ItemAlike ρ) items items' → Alike ρ (.refs items) (.refs items')
  | inst (class_ : UInt16) {fields fields' : Array Value} :
      Alongside (Value.Alike ρ) fields fields' → Alike ρ (.inst class_ fields) (.inst class_ fields')

namespace Object.Alike

variable {o o' : Object} {v w : Value}

theorem mono (alike : Alike ρ o o') (within : ρ.Within ρ') :
  Alike ρ' o o'
  := by
  cases alike with
  | string text => exact .string text
  | ints items => exact .ints items
  | doubles items => exact .doubles items
  | refs along => exact .refs (along.mono fun _ _ alike => alike.mono within)
  | inst class_ along => exact .inst class_ (along.mono fun _ _ alike => alike.mono within)

theorem symm (alike : Alike ρ o o') :
  Alike ρ.swap o' o
  := by
  cases alike with
  | string text => exact .string text
  | ints items => exact .ints items
  | doubles items => exact .doubles items
  | refs along => exact .refs (along.symm fun _ _ alike => Value.Alike.symm alike)
  | inst class_ along => exact .inst class_ (along.symm fun _ _ alike => alike.symm)

/-- What one object refers to has a partner to which the other one refers. -/
theorem refers (alike : Alike ρ o o') {masks : Array (List Bool)} {a : Handle}
    (refers : Heap.Refers masks o a) :
  ∃ b, ρ a b ∧ Heap.Refers masks o' b
  := by
  cases refers with
  | element element =>
    cases alike with
    | refs along =>
      obtain ⟨item, element', items⟩ := along.exists_right element
      cases item with
      | none => cases items
      | some b =>
        cases items with
        | ref paired => exact ⟨b, paired, .element element'⟩
  | field masked followed field =>
    cases alike with
    | inst class_ along =>
      obtain ⟨w, field', values⟩ := along.exists_right field
      cases values with
      | ref paired => exact ⟨_, paired, .field masked followed field'⟩

section

variable (alike : Alike ρ o o')
include alike

theorem kindName_eq :
  o.kindName = o'.kindName
  := by
  cases alike with
  | _ => rfl

theorem text?_eq :
  o.text? = o'.text?
  := by
  cases alike with
  | _ => rfl

theorem arrayLength?_eq :
  o.arrayLength? = o'.arrayLength?
  := by
  cases alike with
  | refs along => exact congrArg some along.size_eq
  | _ => rfl

/-- Elements with the same index are alike. -/
theorem element? (i : Nat) :
  o.element? i = none ∧ o'.element? i = none
    ∨ ∃ v w, o.element? i = some v ∧ o'.element? i = some w ∧ v.Alike ρ w
  := by
  have plain {α : Type} (items : Array α) (f : α → Value) (word : ∀ x, (f x).handle? = none) :
      items[i]?.map f = none ∧ items[i]?.map f = none
        ∨ ∃ v w, items[i]?.map f = some v ∧ items[i]?.map f = some w ∧ v.Alike ρ w := by
    cases items[i]? with
    | none => exact .inl ⟨rfl, rfl⟩
    | some x => exact .inr ⟨_, _, rfl, rfl, .refl_of_plain (word x)⟩
  cases alike with
  | string text | inst class_ along => exact .inl ⟨rfl, rfl⟩
  | ints items | doubles items => exact plain items _ fun _ => rfl
  | @refs items items' along =>
    cases found : items[i]? with
    | none =>
      have outside := Array.getElem?_eq_none_iff.1 found
      rw [along.size_eq] at outside
      have found' := Array.getElem?_eq_none_iff.2 outside
      exact .inl ⟨congrArg (Option.map _) found, congrArg (Option.map _) found'⟩
    | some a =>
      obtain ⟨b, found', alike⟩ := along.exists_right found
      exact .inr ⟨_, _, congrArg (Option.map _) found, congrArg (Option.map _) found', alike⟩

/-- Alike values are put into alike arrays. Where a number is taken from them, they must be
numbers. -/
theorem setElement (i : Nat) (values : v.Alike ρ w)
    (number : o.holdsNumbers → i < o.arrayLength?.getD 0 → v.handle? = none) :
  Alike ρ (o.setElement i v) (o'.setElement i w)
  := by
  cases alike with
  | string text => exact .string text
  | inst class_ along => exact .inst class_ along
  | refs along => exact .refs (along.setIfInBounds i values.ofHandle?)
  | ints items =>
    by_cases inside : i < items.size
    · obtain rfl := values.eq_of_plain (number rfl inside)
      exact .ints _
    · have outside := Nat.not_lt.1 inside
      simp only [Object.setElement, Array.setIfInBounds_eq_of_size_le outside]
      exact .ints items
  | doubles items =>
    by_cases inside : i < items.size
    · obtain rfl := values.eq_of_plain (number rfl inside)
      exact .doubles _
    · have outside := Nat.not_lt.1 inside
      simp only [Object.setElement, Array.setIfInBounds_eq_of_size_le outside]
      exact .doubles items

theorem setField (i : Nat) (values : v.Alike ρ w) :
  Alike ρ (o.setField i v) (o'.setField i w)
  := by
  cases alike with
  | string text => exact .string text
  | ints items => exact .ints items
  | doubles items => exact .doubles items
  | refs along => exact .refs along
  | inst class_ along => exact .inst class_ (along.setIfInBounds i values)

end

end Object.Alike

/-! ### Heaps -/

namespace Heap

/-- Paired handles have objects that are alike, and no handle has two partners. -/
structure Alike (ρ : Pairing) (h h' : Heap) : Prop where
  wellFormed : h.WellFormed
  wellFormed' : h'.WellFormed
  functional : ∀ a b b', ρ a b → ρ a b' → b = b'
  injective : ∀ a a' b, ρ a b → ρ a' b → a = a'
  object : ∀ a b, ρ a b → ∃ o o', h.get? a = some o ∧ h'.get? b = some o' ∧ o.Alike ρ o'

namespace Alike

variable {h h' : Heap} {a b : Handle}

theorem symm (alike : Alike ρ h h') :
  Alike ρ.swap h' h
  where
  wellFormed := alike.wellFormed'
  wellFormed' := alike.wellFormed
  functional b a a' paired paired' := alike.injective a a' b paired paired'
  injective b b' a paired paired' := alike.functional a b b' paired paired'
  object b a paired := by
    obtain ⟨o, o', found, found', contents⟩ := alike.object a b paired
    exact ⟨o', o, found', found, contents.symm⟩

/-- Handles are equal exactly if their partners are. -/
theorem eq_iff (alike : Alike ρ h h') {a' b' : Handle} (paired : ρ a b) (paired' : ρ a' b') :
  a = a' ↔ b = b'
  := by
  constructor
  · rintro rfl
    apply alike.functional a b b' paired paired'
  · rintro rfl
    apply alike.injective a a' b paired paired'

/-- Two values refer to the same object exactly if their partners do. -/
theorem sameObject (alike : Alike ρ h h') {v w v' w' : Value} (values : v.Alike ρ w)
    (values' : v'.Alike ρ w') :
  (v.handle? == v'.handle?) = (w.handle? == w'.handle?)
  := by
  rcases values.handles with ⟨none_, none'⟩ | ⟨a, b, named, named', paired⟩
  · rcases values'.handles with ⟨none₂, none₂'⟩ | ⟨a₂, b₂, named₂, named₂', -⟩
    · rw [none_, none', none₂, none₂']
    · rw [none_, none', named₂, named₂']
      rfl
  · rcases values'.handles with ⟨none₂, none₂'⟩ | ⟨a₂, b₂, named₂, named₂', paired₂⟩
    · rw [named, named', none₂, none₂']
      rfl
    · rw [named, named', named₂, named₂', Bool.eq_iff_iff]
      simpa using alike.eq_iff paired paired₂

/-- A new object has a handle that was not there before. -/
theorem ne_alloc_fst {o : Object} (wf : h.WellFormed) (small : (h.alloc o).2.Small)
    (holds : (h.get? a).isSome) :
  a ≠ (h.alloc o).1
  := by
  rintro rfl
  have next := wf.objectAt_nextIndex
  have bound := wf.nextIndex_lt_size_alloc o
  rw [get?_eq_objectAt, alloc_fst, Handle.index_ofIndex (Nat.lt_of_lt_of_le bound small),
    next] at holds
  cases holds

/-- Alike objects are allocated on both sides. -/
theorem alloc (alike : Alike ρ h h') {o o' : Object} (objects : o.Alike ρ o')
    (small : (h.alloc o).2.Small) (small' : (h'.alloc o').2.Small) :
  Alike (ρ.extend (h.alloc o).1 (h'.alloc o').1) (h.alloc o).2 (h'.alloc o').2
  := by
  have old : ∀ a b, ρ a b → a ≠ (h.alloc o).1 ∧ b ≠ (h'.alloc o').1 := by
    intro a b paired
    obtain ⟨_, _, found, found', -⟩ := alike.object a b paired
    exact ⟨ne_alloc_fst alike.wellFormed small (by rw [found]; rfl),
      ne_alloc_fst alike.wellFormed' small' (by rw [found']; rfl)⟩
  refine ⟨alike.wellFormed.alloc o, alike.wellFormed'.alloc o', ?_, ?_, ?_⟩
  · rintro a b b' (paired | ⟨rfl, rfl⟩) (paired' | ⟨same, rfl⟩)
    · apply alike.functional a b b' paired paired'
    · exact absurd same (old a b paired).1
    · exact absurd rfl (old _ b' paired').1
    · rfl
  · rintro a a' b (paired | ⟨rfl, rfl⟩) (paired' | ⟨rfl, same⟩)
    · apply alike.injective a a' b paired paired'
    · exact absurd same (old a b paired).2
    · exact absurd rfl (old a' _ paired').2
    · rfl
  · have within := ρ.within_extend (h.alloc o).1 (h'.alloc o').1
    rintro a b (paired | ⟨rfl, rfl⟩)
    · obtain ⟨x, x', found, found', contents⟩ := alike.object a b paired
      refine ⟨x, x', ?_, ?_, contents.mono within⟩
      · apply alike.wellFormed.objectAt_alloc_of_some o found
      · apply alike.wellFormed'.objectAt_alloc_of_some o' found'
    · exact ⟨o, o', alike.wellFormed.get?_alloc_fst o small,
        alike.wellFormed'.get?_alloc_fst o' small', objects.mono within⟩

theorem get?_update (h : Heap) (a x : Handle) (f : Object → Object) :
  (h.update a f).get? x = if a = x then (h.get? x).map f else h.get? x
  := by
  rw [get?_eq_objectAt, objectAt_update]
  by_cases same : a = x
  · rw [if_pos same, if_pos (congrArg Handle.index same)]
    rfl
  · rw [if_neg same, if_neg fun indices => same (Handle.eq_of_index_eq indices)]
    rfl

/-- Paired objects are changed alike. -/
theorem update (alike : Alike ρ h h') (paired : ρ a b) {f f' : Object → Object}
    (changes : ∀ o o', h.get? a = some o → o.Alike ρ o' → (f o).Alike ρ (f' o')) :
  Alike ρ (h.update a f) (h'.update b f')
  := by
  refine ⟨alike.wellFormed.update a f, alike.wellFormed'.update b f', alike.functional,
    alike.injective, ?_⟩
  intro x y pair
  obtain ⟨o, o', found, found', contents⟩ := alike.object x y pair
  rw [get?_update, get?_update, found, found']
  by_cases same : a = x
  · have same' := (alike.eq_iff paired pair).1 same
    rw [if_pos same, if_pos same']
    subst same
    exact ⟨f o, f' o', rfl, rfl, changes o o' found contents⟩
  · have other := fun same' => same ((alike.eq_iff paired pair).2 same')
    rw [if_neg same, if_neg other]
    exact ⟨o, o', rfl, rfl, contents⟩

/-! ### Collections -/

/-- The pairs of handles that are reached on both sides. -/
def reached (ρ : Pairing) (h : Heap) (roots : List Handle) (h' : Heap) (roots' : List Handle) :
    Pairing :=
  fun a b => ρ a b ∧ Reaches h roots a ∧ Reaches h' roots' b

section

variable {roots roots' : List Handle}

/-- Values that objects reached on both sides refer to are reached on both sides. -/
theorem reached_of_refers (alike : Alike ρ h h') (pair : reached ρ h roots h' roots' a b)
    {o o' : Object} (found : h.get? a = some o) (found' : h'.get? b = some o') {v w : Value}
    (values : v.Alike ρ w) (refers : ∀ x, v.handle? = some x → Refers h.masks o x)
    (refers' : ∀ y, w.handle? = some y → Refers h'.masks o' y) :
  v.Alike (reached ρ h roots h' roots') w
  := by
  cases values with
  | word bits => exact .word bits
  | null => exact .null
  | @ref x y paired =>
    obtain ⟨_, reaches, reaches'⟩ := pair
    obtain ⟨_, _, there, there', -⟩ := alike.object x y paired
    refine .ref ⟨paired, .step reaches found (refers x rfl) ?_,
      .step reaches' found' (refers' y rfl) ?_⟩
    · rw [there]
      rfl
    · rw [there']
      rfl

/-- Values that refer to roots on both sides are reached on both sides. -/
theorem reached_of_root (alike : Alike ρ h h') {v w : Value} (values : v.Alike ρ w)
    (isRoot : ∀ x, v.handle? = some x → x ∈ roots)
    (isRoot' : ∀ y, w.handle? = some y → y ∈ roots') :
  v.Alike (reached ρ h roots h' roots') w
  := by
  cases values with
  | word bits => exact .word bits
  | null => exact .null
  | @ref x y paired =>
    obtain ⟨_, _, there, there', -⟩ := alike.object x y paired
    exact .ref ⟨paired, .root (isRoot x rfl) (by simp [there]),
      .root (isRoot' y rfl) (by simp [there'])⟩

/-- What is reached has a partner that is reached, if the roots have partners. -/
theorem exists_partner (alike : Alike ρ h h') (masks : h'.masks = h.masks)
    (rooted : ∀ x ∈ roots, ∃ y ∈ roots', ρ x y) (reaches : Reaches h roots a) :
  ∃ b, reached ρ h roots h' roots' a b
  := by
  suffices partner : ∃ b, ρ a b ∧ Reaches h' roots' b by
    obtain ⟨b, paired, reaches'⟩ := partner
    exact ⟨b, paired, reaches, reaches'⟩
  have holds {x y : Handle} (paired : ρ x y) : (h'.get? y).isSome := by
    obtain ⟨_, _, -, there', -⟩ := alike.object x y paired
    simp [there']
  induction reaches with
  | @root x listed _ =>
    obtain ⟨y, listed', paired⟩ := rooted x listed
    exact ⟨y, paired, .root listed' (holds paired)⟩
  | @step x _ o _ found refers _ ih =>
    obtain ⟨y, paired, reaches'⟩ := ih
    obtain ⟨o₁, o', found₁, found', contents⟩ := alike.object x y paired
    obtain rfl : o = o₁ := Option.some.inj (found.symm.trans found₁)
    obtain ⟨z, paired', refers'⟩ := contents.refers refers
    rw [← masks] at refers'
    exact ⟨z, paired', .step reaches' found' refers' (holds paired')⟩

/-- Handles that are not reached need no partners. -/
theorem restrict (alike : Alike ρ h h') (sound : h.Sound) (sound' : h'.Sound) (small : h.Small)
    (small' : h'.Small) (roots roots' : List Handle) :
  Alike (reached ρ h roots h' roots') h h'
  := by
  refine ⟨alike.wellFormed, alike.wellFormed', ?_, ?_, ?_⟩
  · intro a b b' pair pair'
    apply alike.functional a b b' pair.1 pair'.1
  · intro a a' b pair pair'
    apply alike.injective a a' b pair.1 pair'.1
  · intro a b pair
    obtain ⟨o, o', found, found', contents⟩ := alike.object a b pair.1
    refine ⟨o, o', found, found', ?_⟩
    have intact := sound.intact small a.index o found
    have intact' := sound'.intact small' b.index o' found'
    have inner {v w : Value} := @reached_of_refers ρ h h' a b roots roots' alike pair o o' found
      found' v w
    cases contents with
    | string text => exact .string text
    | ints items => exact .ints items
    | doubles items => exact .doubles items
    | refs along =>
      refine .refs ⟨along.size_eq, ?_⟩
      intro k x y element element'
      apply inner (along.each k x y element element')
      · exact fun _ => Object.refers_of_element element
      · exact fun _ => Object.refers_of_element element'
    | inst class_ along =>
      refine .inst class_ ⟨along.size_eq, ?_⟩
      intro k v w field field'
      apply inner (along.each k v w field field')
      · exact fun _ => intact.refers_of_field field
      · exact fun _ => intact'.refers_of_field field'

end

/-- Only the objects of paired handles matter. -/
theorem congr (alike : Alike ρ h h') {k k' : Heap} (wf : k.WellFormed) (wf' : k'.WellFormed)
    (same : ∀ a b, ρ a b → k.get? a = h.get? a) (same' : ∀ a b, ρ a b → k'.get? b = h'.get? b) :
  Alike ρ k k'
  := by
  refine ⟨wf, wf', alike.functional, alike.injective, ?_⟩
  intro a b pair
  rw [same a b pair, same' a b pair]
  apply alike.object a b pair

end Alike

/-! ### Default values -/

/-- The heaps are alike, as long as every slot has a handle of its own. -/
def AlikeIn (ρ : Pairing) (h h' : Heap) : Prop := h.Small → h'.Small → Alike ρ h h'

theorem small_of_alloc {h : Heap} {o : Object} (small : (h.alloc o).2.Small) :
  h.Small
  := by
  unfold Small at small ⊢
  rw [slots_size_alloc] at small
  split at small
  all_goals omega

namespace AlikeIn

variable {h h' : Heap}

theorem alloc (alike : AlikeIn ρ h h') {o o' : Object} (objects : o.Alike ρ o') :
  AlikeIn (ρ.extend (h.alloc o).1 (h'.alloc o').1) (h.alloc o).2 (h'.alloc o').2
  := by
  intro small small'
  apply (alike (small_of_alloc small) (small_of_alloc small')).alloc objects small small'

theorem defaultValue (alike : AlikeIn ρ h h') (ty : Ty) :
  ∃ ρ', ρ.Within ρ' ∧ AlikeIn ρ' (h.defaultValue ty).2 (h'.defaultValue ty).2
    ∧ (h.defaultValue ty).1.Alike ρ' (h'.defaultValue ty).1
  := by
  have same {v : Value} (plain : v.handle? = none) :
      ∃ ρ', ρ.Within ρ' ∧ AlikeIn ρ' h h' ∧ v.Alike ρ' v :=
    ⟨ρ, .refl ρ, alike, .refl_of_plain plain⟩
  cases ty with
  | string =>
    exact ⟨_, ρ.within_extend _ _, alike.alloc (.string ""), .ref (ρ.extend_self _ _)⟩
  | _ => exact same rfl

theorem defaultValues (alike : AlikeIn ρ h h') (tys : List Ty) :
  ∃ ρ', ρ.Within ρ' ∧ AlikeIn ρ' (h.defaultValues tys).2 (h'.defaultValues tys).2
    ∧ List.Forall₂ (Value.Alike ρ') (h.defaultValues tys).1 (h'.defaultValues tys).1
  := by
  induction tys generalizing ρ h h' with
  | nil => exact ⟨ρ, .refl ρ, alike, .nil⟩
  | cons ty rest ih =>
    obtain ⟨ρ₁, within₁, alike₁, first⟩ := alike.defaultValue ty
    obtain ⟨ρ₂, within₂, alike₂, others⟩ := ih alike₁
    exact ⟨ρ₂, within₁.trans within₂, alike₂, .cons (first.mono within₂) others⟩

end AlikeIn

end Heap

end Bytecode
