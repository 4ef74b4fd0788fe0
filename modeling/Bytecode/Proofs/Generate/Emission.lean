import Mathlib
import Bytecode.Proofs.Action
import Bytecode.Proofs.Code.LineTable
import Bytecode.Proofs.Code.Requests
import Bytecode.Proofs.Generate.Scheme

/-!
# Drafts that take up structured code

While code is being generated, the jumps in it name labels, of which many are not placed yet. A
finished draft `Completes` an earlier one when it has its code, its constants and its placed
labels. `Emission` says that an action has appended the code of a piece: in every draft that
completes the new one, the instructions appended are those of the piece, if its aims are the
places that the labels have there.

Emissions are closed under the ways in which pieces are put together, so that the code of a
construct is described by following the actions that generate it.
-/

namespace Bytecode

variable {d d' : Draft} {n : Nat} {label : Label}

namespace Draft

def code (d : Draft) : Array UInt8 := d.body.buffer.code

def labels (d : Draft) : Array (Option Nat) := d.body.buffer.labels

def lines (d : Draft) : Array LineRun := d.body.buffer.lines

def constants (d : Draft) : Array Constant := d.pool.constants

/-- The site of what is generated next. -/
def site (d : Draft) : Site :=
  ⟨(d.body.function.map (·.params.length)).getD 0, (d.body.function.map (·.returnType)).getD .void,
    d.body.line⟩

/-- The place of a label, or the given one if it has not been placed. -/
def place (d : Draft) (unset : Nat) (label : Label) : Nat :=
  (d.body.buffer.place? label.number).getD unset

/-- The line table tiles the code, and labels are placed within it. -/
structure Sound (d : Draft) : Prop where
  tiles : Tiles d.lines.toList 0 d.code.size
  placed : ∀ (n place : Nat), d.labels[n]? = some (some place) → place ≤ d.code.size

/-- The draft is sound and goes on at the given site. -/
structure IsAt (site : Site) (d : Draft) : Prop where
  sound : d.Sound
  site_eq : d.site = site

/-- A draft contains another one, and has few enough labels to tell them apart. -/
structure Completes (d fin : Draft) : Prop where
  code : ∃ more, fin.code = d.code ++ more
  constants : ∃ more, fin.constants = d.constants ++ more
  labels : ∀ (n place : Nat), d.labels[n]? = some (some place) →
    fin.labels[n]? = some (some place)
  lines : ∀ pc, pc < d.code.size → lineAt fin.lines pc = lineAt d.lines pc
  labels_le : d.labels.size ≤ fin.labels.size
  few : fin.labels.size ≤ 65536

/-- The label has been made. -/
def Made (label : Label) (d : Draft) : Prop := label.number.toNat < d.labels.size

/-- The draft has a label of that rank, which is not placed unless numbers are used up. -/
structure Pending (n : Nat) (d : Draft) : Prop where
  old : n < d.labels.size
  unplaced : d.labels.size ≤ 65536 → d.labels[n]? = some none

theorem Pending.made (pending : d.Pending n) :
  d.Made ⟨n.toUInt16⟩
  := by
  have old := pending.old
  simp only [Made, Nat.toUInt16, UInt16.toNat_ofNat']
  omega

end Draft

/-- A decoded instruction is the one planned, except that a jump names a label which has the
place planned, where labels that are not placed are read as the given place. -/
def Point.Drafted (fin : Draft) (unset : Nat) (p : Point) (i : Instruction) : Prop :=
  i.pc = p.pc ∧ i.op = p.op ∧ lineAt fin.lines p.pc = some p.line
    ∧ if p.op.isJump then
        ∃ number, i.operand = some number ∧ p.operand = .number (fin.place unset ⟨number⟩)
      else p.operand.Denotes fin.constants i.operand

/-- The code of a piece has been appended, with at most so many labels made and only the given
ones of the older labels placed. -/
structure Emission (labels : Aim → Label) (q : Piece) (fresh : Nat) (set : List Nat)
    (d d' : Draft) : Prop where
  size : d'.code.size = d.code.size + q.size
  appended : ∃ more, d'.code = d.code ++ more
  blocks : d'.body.blocks = d.body.blocks
  function : d'.body.function = d.body.function
  line : d'.body.line = d.body.line
  labels_le : d.labels.size ≤ d'.labels.size
  labels_ge : d'.labels.size ≤ d.labels.size + fresh
  kept : d'.labels.size ≤ 65536 → ∀ n, n < d.labels.size → n ∉ set → d'.labels[n]? = d.labels[n]?
  sound : d'.Sound
  frameless : d.body.function = none → q.Every (fun i => i.op.isFramed = false)
  completes : ∀ fin, d'.Completes fin → d.Completes fin
  distinct : d.constants.toList.Nodup → d'.constants.toList.Nodup
  proceeds : d.body.buffer.Proceeds d'.body.buffer
  written : ∃ is, Walk d'.code d.code.size d'.code.size is ∧
    ∀ fin unset depth, d'.Completes fin →
      List.Forall₂ (Point.Drafted fin unset)
        (q.points (fun aim => fin.place unset (labels aim)) d.code.size depth) is

/-- The code of a piece has been appended, with no more labels than bytes of jumps. -/
abbrev Emits (labels : Aim → Label) (q : Piece) (d d' : Draft) : Prop :=
  Emission labels q q.jumpSize [] d d'

namespace Emission

variable {labels : Aim → Label} {q r : Piece} {fresh fresh' rise : Nat} {set set' : List Nat}
  {d d₁ d₂ : Draft}

section

variable (e : Emission labels q fresh set d d₁)
include e

theorem site_eq :
  d₁.site = d.site
  := by
  unfold Draft.site
  rw [e.function, e.line]

theorem isAt {site : Site} (here : d.IsAt site) :
  d₁.IsAt site
  := ⟨e.sound, e.site_eq.trans here.site_eq⟩

theorem made (made : d.Made label) :
  d₁.Made label
  := Nat.lt_of_lt_of_le made e.labels_le

theorem weaken (more : fresh ≤ fresh') :
  Emission labels q fresh' set d d₁
  := { e with labels_ge := Nat.le_trans e.labels_ge (by omega) }

/-- Labels that were made on the way need not be mentioned. -/
theorem forget (own : ∀ n ∈ set, d.labels.size ≤ n) :
  Emission labels q fresh [] d d₁
  := by
  refine { e with kept := ?_ }
  intro few n old _
  apply e.kept few n old
  intro listed
  have new := own n listed
  omega

end

theorem pending (e : Emission labels q fresh set d d₁) {n : Nat} (pending : d.Pending n)
    (other : n ∉ set) :
  d₁.Pending n
  where
  old := Nat.lt_of_lt_of_le pending.old e.labels_le
  unplaced few := by
    rw [e.kept few n pending.old other, pending.unplaced (Nat.le_trans e.labels_le few)]

/-- Nothing happens. -/
theorem refl (labels : Aim → Label) (sound : d.Sound) :
  Emission labels .empty 0 [] d d
  where
  size := rfl
  appended := ⟨#[], by simp⟩
  blocks := rfl
  function := rfl
  line := rfl
  labels_le := Nat.le_refl _
  labels_ge := Nat.le_refl _
  kept _ _ _ _ := rfl
  sound := sound
  frameless _ := trivial
  completes _ c := c
  distinct := id
  proceeds := .refl _
  written := ⟨[], .nil _, fun _ _ _ _ => .nil⟩

/-- A walk stays when code is appended, and goes on in the code appended. -/
theorem walk_append {start : Nat} {is js : List Instruction}
    (appended : ∃ more, d₂.code = d₁.code ++ more)
    (walk : Walk d₁.code start d₁.code.size is)
    (walk' : Walk d₂.code d₁.code.size d₂.code.size js) :
  Walk d₂.code start d₂.code.size (is ++ js)
  := by
  obtain ⟨bytes, appended⟩ := appended
  apply Walk.append _ walk'
  apply walk.congr
  · rw [appended, Array.size_append]
    omega
  · intro j _ upper
    rw [appended, Array.getElem?_append_left upper]

/-- One piece after another. -/
theorem seq (first : Emission labels q fresh set d d₁)
    (second : Emission labels r fresh' set' d₁ d₂) :
  Emission labels (q.seq rise r) (fresh + fresh') (set ++ set') d d₂
  where
  size := by
    rw [second.size, first.size, Nat.add_assoc]
    rfl
  appended := by
    obtain ⟨bytes, appended⟩ := first.appended
    obtain ⟨bytes', appended'⟩ := second.appended
    exact ⟨bytes ++ bytes', by rw [appended', appended, Array.append_assoc]⟩
  blocks := second.blocks.trans first.blocks
  function := second.function.trans first.function
  line := second.line.trans first.line
  labels_le := Nat.le_trans first.labels_le second.labels_le
  labels_ge := by
    have bound := first.labels_ge
    have bound' := second.labels_ge
    omega
  kept few n old other := by
    simp only [List.mem_append, not_or] at other
    have le := first.labels_le
    rw [second.kept few n (by omega) other.2,
      first.kept (Nat.le_trans second.labels_le few) n old other.1]
  sound := second.sound
  frameless topLevel := ⟨first.frameless topLevel, second.frameless (first.function.trans topLevel)⟩
  completes fin c := first.completes fin (second.completes fin c)
  distinct nodup := second.distinct (first.distinct nodup)
  proceeds := first.proceeds.trans second.proceeds
  written := by
    obtain ⟨is, walk, drafted⟩ := first.written
    obtain ⟨js, walk', drafted'⟩ := second.written
    refine ⟨is ++ js, walk_append second.appended walk walk', ?_⟩
    intro fin unset depth c
    apply List.rel_append (drafted fin unset depth (second.completes fin c))
    rw [← first.size]
    exact drafted' fin unset (depth + rise) c

/-- A piece may be replaced by one with the same instructions. -/
theorem congr (e : Emission labels q fresh set d d₁) (size : r.size = q.size)
    (every : ∀ P, q.Every P → r.Every P)
    (points : ∀ aims pc depth, r.points aims pc depth = q.points aims pc depth) :
  Emission labels r fresh set d d₁
  where
  __ := e
  size := by rw [size, e.size]
  frameless topLevel := every _ (e.frameless topLevel)
  written := by
    obtain ⟨is, walk, drafted⟩ := e.written
    refine ⟨is, walk, ?_⟩
    intro fin unset depth c
    rw [points]
    exact drafted fin unset depth c

/-- Preparations write nothing. -/
theorem after (first : Emission labels .empty fresh set d d₁)
    (second : Emission labels q fresh' set' d₁ d₂) :
  Emission labels q (fresh + fresh') (set ++ set') d d₂
  := by
  have both : Emission labels (Piece.empty.seq 0 q) (fresh + fresh') (set ++ set') d d₂ :=
    first.seq second
  apply both.congr
  · simp [Piece.size]
  · exact fun _ every => every.2
  · intro aims pc depth
    simp [Piece.points, Piece.size]

/-- What is done afterwards writes nothing. -/
theorem before (first : Emission labels q fresh set d d₁)
    (second : Emission labels .empty fresh' set' d₁ d₂) :
  Emission labels q (fresh + fresh') (set ++ set') d d₂
  := by
  have both : Emission labels (q.seq 0 .empty) (fresh + fresh') (set ++ set') d d₂ :=
    first.seq second
  apply both.congr
  · simp [Piece.size]
  · exact fun _ every => every.1
  · intro aims pc depth
    simp [Piece.points]

/-- An emission depends only on the code and the constants. -/
theorem reframe (e : Emission labels q fresh set d d₁) {c c₁ : Draft}
    (same : c.pool = d.pool ∧ c.body.buffer = d.body.buffer ∧ c.body.function = d.body.function)
    (same₁ : c₁.pool = d₁.pool ∧ c₁.body.buffer = d₁.body.buffer)
    (blocks : c₁.body.blocks = c.body.blocks) (function : c₁.body.function = c.body.function)
    (line : c₁.body.line = c.body.line) :
  Emission labels q fresh set c c₁
  := by
  obtain ⟨pool, ⟨buffer, _, _, _⟩⟩ := c
  obtain ⟨pool₁, ⟨buffer₁, _, _, _⟩⟩ := c₁
  obtain ⟨rfl, rfl, sameFunction⟩ := same
  obtain ⟨rfl, rfl⟩ := same₁
  obtain ⟨size, appended, -, -, -, labels_le, labels_ge, kept, ⟨tiles, placed⟩, frameless,
    completes, distinct, proceeds, written⟩ := e
  refine ⟨size, appended, blocks, function, line, labels_le, labels_ge, kept, ⟨tiles, placed⟩,
    fun topLevel => frameless (sameFunction.symm.trans topLevel), ?_, distinct, proceeds, ?_⟩
  · rintro fin ⟨code, constants, labels, lines, labels_le, few⟩
    obtain ⟨code, constants, labels, lines, labels_le, few⟩ :=
      completes fin ⟨code, constants, labels, lines, labels_le, few⟩
    exact ⟨code, constants, labels, lines, labels_le, few⟩
  · obtain ⟨is, walk, drafted⟩ := written
    refine ⟨is, walk, ?_⟩
    rintro fin unset depth ⟨code, constants, labels, lines, labels_le, few⟩
    exact drafted fin unset depth ⟨code, constants, labels, lines, labels_le, few⟩

end Emission

/-! ### Labels -/

theorem toNat_toUInt16 (small : n < 65536) :
  n.toUInt16.toNat = n
  := by
  simp only [Nat.toUInt16, UInt16.toNat_ofNat']
  omega

theorem Gen.newLabel_eq_ok (run : newLabel d = .ok label d') :
  label = ⟨d.labels.size.toUInt16⟩
    ∧ d' = { d with body := { d.body with
        buffer := { d.body.buffer with labels := d.labels.push none } } }
  := by
  cases run
  exact ⟨rfl, rfl⟩

theorem Gen.setLabel_eq_ok (run : setLabel label d = .ok () d') :
  d' = { d with body := { d.body with
    buffer := { d.body.buffer with
      labels := d.labels.setIfInBounds label.number.toNat (some d.code.size) } } }
  := by
  cases run
  rfl

/-- A new label is pending. -/
theorem Draft.pending_newLabel (run : Gen.newLabel d = .ok label d') :
  d'.Pending d.labels.size
  := by
  obtain ⟨-, rfl⟩ := Gen.newLabel_eq_ok run
  constructor
  all_goals simp [labels]

theorem emission_newLabel (labels : Aim → Label) (sound : d.Sound)
    (run : Gen.newLabel d = .ok label d') :
  Emission labels .empty 1 [] d d'
  := by
  obtain ⟨-, rfl⟩ := Gen.newLabel_eq_ok run
  have old : ∀ n, n < d.labels.size → (d.labels.push none)[n]? = d.labels[n]? := by
    intro n small
    rw [Array.getElem?_push_lt small, Array.getElem?_eq_getElem small]
  have pushed : (d.labels.push none).size = d.labels.size + 1 := Array.size_push ..
  refine ⟨rfl, ⟨#[], by simp [Draft.code]⟩, rfl, rfl, rfl, ?_, ?_, ?_, ⟨sound.tiles, ?_⟩,
    fun _ => trivial, ?_, id, CodeBuffer.proceeds_newLabel _, ?_⟩
  · change d.labels.size ≤ (d.labels.push none).size
    omega
  · change (d.labels.push none).size ≤ _
    omega
  · intro _ n small _
    exact old n small
  · intro n place found
    apply sound.placed n place
    rw [← old n _]
    · exact found
    · have small := (Array.getElem?_eq_some_iff.1 found).1
      change n < (d.labels.push none).size at small
      by_contra large
      obtain rfl : n = d.labels.size := by omega
      simp [Draft.labels] at found
  · rintro fin ⟨code, constants, placed, lines, labels_le, few⟩
    refine ⟨code, constants, ?_, lines, ?_, few⟩
    · intro n place found
      apply placed n place
      have small := (Array.getElem?_eq_some_iff.1 found).1
      exact (old n small).trans found
    · change (d.labels.push none).size ≤ _ at labels_le
      omega
  · exact ⟨[], .nil _, fun _ _ _ _ => .nil⟩

/-- The labels after one of them has been placed. -/
theorem getElem?_setLabel (run : Gen.setLabel ⟨n.toUInt16⟩ d = .ok () d')
    (small : n < d.labels.size) (few : d.labels.size ≤ 65536) (k : Nat) :
  d'.labels[k]? = if k = n then some (some d.code.size) else d.labels[k]?
  := by
  obtain rfl := Gen.setLabel_eq_ok run
  change (d.labels.setIfInBounds n.toUInt16.toNat (some d.code.size))[k]? = _
  rw [toNat_toUInt16 (by omega), Array.getElem?_setIfInBounds]
  by_cases same : k = n
  · subst same
    simp [small]
  · simp [same, Ne.symm same]

theorem emission_setLabel (labels : Aim → Label) (sound : d.Sound) (pending : d.Pending n)
    (run : Gen.setLabel ⟨n.toUInt16⟩ d = .ok () d') :
  Emission labels .empty 0 [n] d d'
  := by
  have changed := Gen.setLabel_eq_ok run
  have size : d'.labels.size = d.labels.size := by
    rw [changed]
    exact Array.size_setIfInBounds
  have code : d'.code = d.code := by rw [changed]; rfl
  have lines : d'.lines = d.lines := by rw [changed]; rfl
  have constants : d'.constants = d.constants := by rw [changed]; rfl
  refine ⟨by rw [code]; rfl, ⟨#[], by rw [code]; simp⟩, by rw [changed], by rw [changed],
    by rw [changed], by omega, by omega, ?_, ⟨?_, ?_⟩, fun _ => trivial, ?_, ?_, ?_, ?_⟩
  · intro few k _ other
    rw [size] at few
    rw [getElem?_setLabel run pending.old few k, if_neg (by simpa using other)]
  · rw [lines, code]
    exact sound.tiles
  · intro k place found
    rw [code]
    rw [changed] at found
    change (d.labels.setIfInBounds n.toUInt16.toNat (some d.code.size))[k]? = _ at found
    rw [Array.getElem?_setIfInBounds] at found
    split at found
    · split at found
      · cases found
        exact Nat.le_refl _
      · cases found
    · exact sound.placed k place found
  · rintro fin ⟨code', constants', placed, lines', labels_le, few⟩
    rw [code] at code' lines'
    rw [constants] at constants'
    rw [lines] at lines'
    rw [size] at labels_le
    refine ⟨code', constants', ?_, lines', labels_le, few⟩
    intro k place found
    apply placed k place
    have small : d.labels.size ≤ 65536 := by omega
    rw [getElem?_setLabel run pending.old small k, if_neg, found]
    -- a label that was placed already is not the pending one
    rintro rfl
    rw [pending.unplaced small] at found
    cases found
  · rw [constants]
    exact id
  · rw [changed]
    exact CodeBuffer.proceeds_setLabel pending.made
  · rw [code]
    exact ⟨[], .nil _, fun _ _ _ _ => .nil⟩

/-- A placed label keeps its place in every draft that completes this one. -/
theorem Draft.Completes.place_eq {fin : Draft} (completes : d'.Completes fin)
    (pending : d.Pending n) (run : Gen.setLabel ⟨n.toUInt16⟩ d = .ok () d') (unset : Nat) :
  fin.place unset ⟨n.toUInt16⟩ = d.code.size
  := by
  have same : d'.labels.size = d.labels.size := by
    rw [Gen.setLabel_eq_ok run]
    exact Array.size_setIfInBounds
  have few : d.labels.size ≤ 65536 := by
    rw [← same]
    exact Nat.le_trans completes.labels_le completes.few
  have found := completes.labels n d.code.size
    (by rw [getElem?_setLabel run pending.old few n, if_pos rfl])
  change ((fin.labels[n.toUInt16.toNat]?).join).getD unset = _
  rw [toNat_toUInt16 (Nat.lt_of_lt_of_le pending.old few), found]
  rfl

/-- A label that is placed between two pieces is the aim of the jumps in both that name it. -/
theorem Emission.mark {labels : Aim → Label} {q r : Piece} {fresh fresh' rise n : Nat}
    {set set' : List Nat} {d d₁ d₂ d₃ : Draft} {aim : Aim}
    (first : Emission (Function.update labels aim ⟨n.toUInt16⟩) q fresh set d d₁)
    (pending : d₁.Pending n) (run : Gen.setLabel ⟨n.toUInt16⟩ d₁ = .ok () d₂)
    (second : Emission (Function.update labels aim ⟨n.toUInt16⟩) r fresh' set' d₂ d₃) :
  Emission labels (.mark aim q rise r) (fresh + fresh') (set ++ n :: set') d d₃
  := by
  have placed := emission_setLabel (Function.update labels aim ⟨n.toUInt16⟩) first.sound pending run
  have whole : Emission (Function.update labels aim ⟨n.toUInt16⟩) ((q.seq 0 .empty).seq rise r)
      (fresh + 0 + fresh') (set ++ [n] ++ set') d d₃ := (first.seq placed).seq second
  obtain ⟨size, appended, blocks, function, line, labels_le, labels_ge, kept, sound, frameless,
    completes, distinct, proceeds, -⟩ := whole
  refine ⟨?_, appended, blocks, function, line, labels_le, labels_ge, ?_, sound, ?_, completes,
    distinct, proceeds, ?_⟩
  · exact size
  · simpa using kept
  · intro topLevel
    obtain ⟨⟨left, -⟩, right⟩ := frameless topLevel
    exact ⟨left, right⟩
  · obtain ⟨is, walk, drafted⟩ := first.written
    obtain ⟨js, walk', drafted'⟩ := second.written
    have same : d₂.code = d₁.code := by
      rw [Gen.setLabel_eq_ok run]
      rfl
    rw [same] at walk'
    refine ⟨is ++ js, ?_, ?_⟩
    · exact walk_append (by rw [← same]; exact second.appended) walk walk'
    · intro fin unset depth c
      have there := (second.completes fin c).place_eq pending run unset
      have aims : (fun a => fin.place unset (Function.update labels aim ⟨n.toUInt16⟩ a))
          = Function.update (fun a => fin.place unset (labels a)) aim (d.code.size + q.size) := by
        funext a
        by_cases here : a = aim
        · subst here
          simp [there, first.size]
        · simp [Function.update_of_ne here]
      have left := drafted fin unset depth (placed.completes fin (second.completes fin c))
      have right := drafted' fin unset (depth + rise) c
      rw [aims] at left right
      rw [same, first.size] at right
      exact List.rel_append left right

/-! ### Instructions -/

namespace Gen

variable {position : Position} {op : Op} {operands : List Int} {d d' : Draft} {buffer : CodeBuffer}

theorem emit_of_ok {pc : Nat}
    (emitted : CodeBuffer.emit (d.site.lineOf position) op operands d.body.buffer = .ok pc buffer) :
  emit position op operands d = .ok () { d with body := { d.body with buffer } }
  := by
  change CodeBuffer.emit (d.body.lineOf position) op operands d.body.buffer = _ at emitted
  simp only [emit, onBody, discard, Functor.discard, Functor.mapConst, Function.comp]
  unfold EStateM.map
  simp only [Body.emit, Body.onBuffer, emitted]

theorem emit_of_error {defect : Defect}
    (refused : CodeBuffer.emit (d.site.lineOf position) op operands d.body.buffer
      = .error defect buffer) :
  emit position op operands d = .error ⟨defect, position⟩ { d with body := { d.body with buffer } }
  := by
  change CodeBuffer.emit (d.body.lineOf position) op operands d.body.buffer = _ at refused
  simp only [emit, onBody, discard, Functor.discard, Functor.mapConst, Function.comp]
  unfold EStateM.map
  simp only [Body.emit, Body.onBuffer, refused]

theorem emit_eq_ok (run : emit position op operands d = .ok () d') :
  ∃ pc buffer,
    CodeBuffer.emit (d.site.lineOf position) op operands d.body.buffer = .ok pc buffer
      ∧ d' = { d with body := { d.body with buffer } }
  := by
  cases emitted : CodeBuffer.emit (d.site.lineOf position) op operands d.body.buffer with
  | ok pc buffer =>
    rw [emit_of_ok emitted] at run
    cases run
    exact ⟨pc, buffer, rfl, rfl⟩
  | error defect buffer =>
    rw [emit_of_error emitted] at run
    cases run

theorem emit_eq_error {e : CompileError} (run : emit position op operands d = .error e d') :
  ∃ value, e.defect = .operandOutOfRange op.mnemonic value
  := by
  cases emitted : CodeBuffer.emit (d.site.lineOf position) op operands d.body.buffer with
  | ok pc buffer =>
    rw [emit_of_ok emitted] at run
    cases run
  | error defect buffer =>
    rw [emit_of_error emitted] at run
    cases run
    exact CodeBuffer.emit_eq_error emitted

end Gen

/-- An instruction that was emitted is in every draft that completes the new one. -/
theorem emission_emit {labels : Aim → Label} {position : Position} {operands : List Int}
    {q : Piece} {op : Op} {i : Draft → Nat → Directive} (sound : d.Sound)
    (arity : operands.length = op.arity) (run : Gen.emit position op operands d = .ok () d')
    (size : q.size = op.size)
    (points : ∀ fin unset depth,
      q.points (fun aim => fin.place unset (labels aim)) d.code.size depth
        = [{ i fin unset with pc := d.code.size, depth, line := d.site.lineOf position }])
    (opcode : ∀ fin unset, (i fin unset).op = op)
    (drafted : (∀ value ∈ operands, -32768 ≤ value ∧ value < 65536) →
      ∀ fin unset, d.Completes fin →
        if op.isJump then ∃ number, operands.head?.map operandWord = some number
          ∧ (i fin unset).operand = .number (fin.place unset ⟨number⟩)
        else (i fin unset).operand.Denotes fin.constants (operands.head?.map operandWord))
    (frameless : d.body.function = none → q.Every (fun i => i.op.isFramed = false))
    (named : op.isJump → ∃ label, d.Made label ∧ operands = [(label.number.toNat : Int)]) :
  Emission labels q 0 [] d d'
  := by
  obtain ⟨pc, buffer, emitted, rfl⟩ := Gen.emit_eq_ok run
  obtain ⟨sameLabels, lines, range, ⟨bytes, appended, width⟩, fetched⟩ :=
    CodeBuffer.emit_eq_ok arity emitted
  have grown : buffer.code.size = d.code.size + op.size := by
    rw [appended, Array.size_append, width]
    rfl
  have positive := op.size_pos
  change buffer.lines = addLine d.lines _ d.code.size _ at lines
  have tiles : Tiles buffer.lines.toList 0 buffer.code.size := by
    rw [lines, grown]
    exact tiles_addLine sound.tiles positive _
  have completes : ∀ fin : Draft,
      Draft.Completes { d with body := { d.body with buffer } } fin → d.Completes fin := by
    rintro fin ⟨⟨more, code⟩, constants, placed, sameLines, labels_le, few⟩
    refine ⟨⟨bytes ++ more, ?_⟩, constants, ?_, ?_, ?_, few⟩
    · rw [code, ← Array.append_assoc]
      change buffer.code ++ more = _
      rw [appended]
      rfl
    · intro n place found
      apply placed n place
      change buffer.labels[n]? = _
      rw [sameLabels]
      exact found
    · intro pc before
      change pc < d.code.size at before
      rw [sameLines pc]
      · change lineAt buffer.lines pc = _
        rw [lines, lineAt_addLine sound.tiles, if_neg]
        omega
      · change pc < buffer.code.size
        omega
    · change buffer.labels.size ≤ _ at labels_le
      rw [sameLabels] at labels_le
      exact labels_le
  refine ⟨?_, ⟨bytes, appended⟩, rfl, rfl, rfl, ?_, ?_, ?_, ⟨tiles, ?_⟩, frameless, completes, id,
    CodeBuffer.proceeds_emit arity named emitted, ?_⟩
  · change buffer.code.size = _
    rw [grown, size]
  · change d.labels.size ≤ buffer.labels.size
    rw [sameLabels]
    exact Nat.le_refl _
  · change buffer.labels.size ≤ _
    rw [sameLabels]
    exact Nat.le_add_right _ _
  · intro _ n _ _
    change buffer.labels[n]? = _
    rw [sameLabels]
    rfl
  · intro n place found
    change place ≤ buffer.code.size
    change buffer.labels[n]? = _ at found
    rw [sameLabels] at found
    have inside := sound.placed n place found
    omega
  · refine ⟨[⟨d.code.size, op, operands.head?.map operandWord⟩], ?_, ?_⟩
    · apply Walk.cons fetched
      change Walk _ (d.code.size + op.size) buffer.code.size []
      rw [grown]
      exact .nil _
    · intro fin unset depth c
      rw [points fin unset depth]
      refine .cons ⟨rfl, (opcode fin unset).symm, ?_, ?_⟩ .nil
      · change lineAt fin.lines d.code.size = some (d.site.lineOf position)
        rw [c.lines]
        · change lineAt buffer.lines _ = _
          rw [lines, lineAt_addLine sound.tiles, if_pos (by omega)]
        · change d.code.size < buffer.code.size
          omega
      · rw [opcode fin unset]
        exact drafted range fin unset (completes fin c)

section Emits

variable {labels : Aim → Label} {position : Position} {d d' : Draft} {site : Site}
  {i : Directive}
variable {c : Constant} {index : Nat}

/-- An instruction without an operand. -/
theorem emits_none (here : d.IsAt site)
    (run : Gen.emit position i.op [] d = .ok () d') (shapeless : i.op.shape? = none)
    (none : i.operand = .none) (framed : i.op.isFramed = false ∨ d.body.function ≠ Option.none) :
  Emits labels (site.one position i) d d'
  := by
  obtain ⟨sound, rfl⟩ := here
  have plain : i.op.isJump = false := by
    by_contra jump
    rw [Op.isJump_shape? (by simpa using jump)] at shapeless
    cases shapeless
  apply emission_emit sound _ run (i := fun _ _ => i) rfl (fun _ _ _ => rfl) (fun _ _ => rfl)
  · intro _ fin _ _
    simp [plain, none, Operand.Denotes]
  · exact fun topLevel => framed.resolve_right (not_not_intro topLevel)
  · simp [plain]
  · simp [Op.arity, shapeless]

/-- An instruction with a number. -/
theorem emits_number {value : Int} (here : d.IsAt site)
    (run : Gen.emit position i.op [value] d = .ok () d') (shaped : i.op.shape?.isSome)
    (plain : i.op.isJump = false) (number : i.operand = .number value)
    (framed : i.op.isFramed = false ∨ d.body.function ≠ none) :
  Emits labels (site.one position i) d d'
  := by
  obtain ⟨sound, rfl⟩ := here
  apply emission_emit sound _ run (i := fun _ _ => i) rfl (fun _ _ _ => rfl) (fun _ _ => rfl)
  · intro range fin _ _
    obtain ⟨lower, upper⟩ := range value List.mem_cons_self
    simp [plain, number, Operand.Denotes, lower, upper]
  · exact fun topLevel => framed.resolve_right (not_not_intro topLevel)
  · simp [plain]
  · simp [Op.arity, shaped]

/-- An instruction with a constant. -/
theorem emits_constant (here : d.IsAt site)
    (run : Gen.emit position i.op [(index : Int)] d = .ok () d') (shaped : i.op.shape?.isSome)
    (plain : i.op.isJump = false) (found : d.constants[index]? = some c)
    (constant : i.operand = .constant c) (frameless : i.op.isFramed = false) :
  Emits labels (site.one position i) d d'
  := by
  obtain ⟨sound, rfl⟩ := here
  apply emission_emit sound _ run (i := fun _ _ => i) rfl (fun _ _ _ => rfl) (fun _ _ => rfl)
  · intro range fin _ completes
    obtain ⟨more, constants⟩ := completes.constants
    obtain ⟨-, upper⟩ := range index List.mem_cons_self
    have inside := (Array.getElem?_eq_some_iff.1 found).1
    simp only [plain, Bool.false_eq_true, ↓reduceIte, constant, Operand.Denotes]
    refine ⟨operandWord index, rfl, ?_⟩
    rw [toNat_operandWord_natCast (by omega), constants, Array.getElem?_append_left inside, found]
  · exact fun _ => frameless
  · simp [plain]
  · simp [Op.arity, shaped]

/-- A jump to a label. -/
theorem emission_jump {op : Op} {aim : Aim} {label : Label} (here : d.IsAt site) (jump : op.isJump)
    (aimed : labels aim = label) (made : d.Made label)
    (run : Gen.emitJump position op label d = .ok () d') :
  Emission labels (site.jump position op aim) 0 [] d d'
  := by
  obtain ⟨sound, rfl⟩ := here
  subst aimed
  have emitted : Gen.emit position op [((labels aim).number.toNat : Int)] d = .ok () d' := run
  apply emission_emit sound _ emitted
    (i := fun fin unset => { op, operand := .number (fin.place unset (labels aim)) })
    rfl (fun _ _ _ => rfl) (fun _ _ => rfl)
  · intro _ fin unset _
    rw [if_pos jump]
    exact ⟨(labels aim).number, by simp [CodeBuffer.operandWord_number], rfl⟩
  · exact fun _ _ => Op.isFramed_eq_false_of_isJump jump
  · exact fun _ => ⟨labels aim, made, rfl⟩
  · simp [Op.arity, Op.isJump_shape? jump]

/-- A constant that was added is in the pool, which is otherwise extended at most, and by nothing
that it has already. -/
theorem ConstantPool.add_eq_ok {p p' : ConstantPool} (added : p.add c = .ok (index, p')) :
  p'.constants[index]? = some c ∧ (∃ more, p'.constants = p.constants ++ more)
    ∧ (p.constants.toList.Nodup → p'.constants.toList.Nodup)
  := by
  unfold ConstantPool.add at added
  cases found : p.constants.idxOf? c with
  | some known =>
    rw [found] at added
    cases added
    obtain ⟨known, located, rfl⟩ := Option.map_eq_some_iff.1 found
    have same := (Array.finIdxOf?_eq_some_iff.1 located).1
    exact ⟨Array.getElem?_eq_some_iff.2 ⟨known.isLt, same⟩, ⟨#[], by simp⟩, id⟩
  | none =>
    rw [found] at added
    simp only at added
    split at added
    · cases added
      have new : c ∉ p.constants := Array.idxOf?_eq_none_iff.1 found
      refine ⟨by simp, ⟨#[c], by simp⟩, ?_⟩
      intro nodup
      rw [Array.toList_push, ← List.concat_eq_append]
      exact nodup.concat (by simpa using new)
    · cases added

theorem emission_addConstant (labels : Aim → Label) (sound : d.Sound)
    (run : Gen.addConstant c position d = .ok index d') :
  Emission labels .empty 0 [] d d' ∧ d'.constants[index]? = some c
  := by
  obtain ⟨pool, body⟩ := d
  simp only [Gen.addConstant] at run
  cases added : pool.add c with
  | error defect =>
    rw [added] at run
    cases run
  | ok result =>
    obtain ⟨known, pool'⟩ := result
    rw [added] at run
    cases run
    obtain ⟨found, ⟨more, extended⟩, distinct⟩ := ConstantPool.add_eq_ok added
    refine ⟨⟨rfl, ⟨#[], by simp [Draft.code]⟩, rfl, rfl, rfl, Nat.le_refl _, Nat.le_refl _,
      fun _ _ _ _ => rfl, ⟨sound.tiles, sound.placed⟩, fun _ => trivial, ?_,
      distinct, .refl _, ⟨[], .nil _, fun _ _ _ _ => .nil⟩⟩, found⟩
    rintro fin ⟨code, ⟨others, constants⟩, placed, lines, labels_le, few⟩
    refine ⟨code, ⟨more ++ others, ?_⟩, placed, lines, labels_le, few⟩
    change fin.constants = pool'.constants ++ others at constants
    rw [constants, extended, Array.append_assoc]
    rfl

/-- A literal that is kept in the pool. -/
theorem emits_literal {op : Op} (here : d.IsAt site) (shaped : op.shape?.isSome)
    (plain : op.isJump = false) (frameless : op.isFramed = false)
    (run : (do
      let index ← Gen.addConstant c position
      Gen.emit position op [(index : Int)]) d = .ok () d') :
  Emits labels (site.one position { op, operand := .constant c }) d d'
  := by
  obtain ⟨index, d₁, run₁, run₂⟩ := bind_eq_ok.1 run
  obtain ⟨added, found⟩ := emission_addConstant labels here.sound run₁
  have pushed : Emits labels (site.one position { op, operand := .constant c }) d₁ d' :=
    emits_constant (added.isAt here) run₂ shaped plain found rfl frameless
  exact (added.after pushed).weaken (by simp)

end Emits

end Bytecode
