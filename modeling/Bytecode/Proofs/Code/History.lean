import Mathlib
import Bytecode.Proofs.Code.Fixup

/-!
# Histories of code buffers

A buffer is written by requests in any order: instructions and jumps are appended, labels are made
and bound, perhaps again and again. A history lists the instructions with the places that the
requests yielded, and the bindings with the size of the buffer at the time; `Written` relates it to
the buffer. What `CodeBuffer.finish` yields is read off the history alone: the code is too large, or
some jump names a label that was never bound, or the code decodes to the instructions of the
history, with each jump leading to where its label was bound last.
-/

namespace Bytecode

namespace CodeBuffer

/-- An instruction as it was requested, and the place that the request yielded. -/
structure Emission where
  pc : Nat
  op : Op
  operands : List Int

inductive Event
  | emitted (e : Emission)
  /-- A label was bound when the buffer had this size. -/
  | bound (label : Label) (size : Nat)

/-- The buffer is the result of requests that all succeeded, with the given history. Making a label
leaves no trace in the history. -/
inductive Written : List Event → CodeBuffer → Prop
  | new : Written [] {}
  | emit {events : List Event} {b b' : CodeBuffer} {line : UInt32} {op : Op} {operands : List Int}
      {pc : Nat} : Written events b → tryEmit line op operands b = .ok pc b' →
      Written (events ++ [.emitted ⟨pc, op, operands⟩]) b'
  | emitJump {events : List Event} {b b' : CodeBuffer} {line : UInt32} {op : Op} {label : Label}
      {pc : Nat} : Written events b → tryEmitJump line op label b = .ok pc b' →
      Written (events ++ [.emitted ⟨pc, op, [label.number.toNat]⟩]) b'
  | newLabel {events : List Event} {b : CodeBuffer} : Written events b →
      Written events b.newLabel.2
  | setLabel {events : List Event} {b b' : CodeBuffer} {label : Label} : Written events b →
      trySetLabel label b = .ok () b' → Written (events ++ [.bound label b.size]) b'

namespace Event

def emission? : Event → Option Emission
  | emitted e => some e
  | bound _ _ => none

/-- Where the event puts the label of a number. -/
def place? (number : UInt16) : Event → Option Nat
  | emitted _ => none
  | bound label size => if label.number = number then some size else none

end Event

/-- The instructions of a history. -/
def emissions (events : List Event) : List Emission := events.filterMap Event.emission?

/-- The size of the buffer when the label of a number was bound last. -/
def lastPlace? (events : List Event) (number : UInt16) : Option Nat :=
  events.reverse.findSome? (Event.place? number)

namespace Emission

/-- The number of the label that a jump names. -/
def label (e : Emission) : UInt16 := operandWord (e.operands.headD 0)

/-- A jump to a label without a place. -/
def isOpen (place? : UInt16 → Option Nat) (e : Emission) : Bool :=
  e.op.isJump && (place? e.label).isNone

/-- The operand of the finished instruction: the place of the label that a jump names, and the
requested number modulo the width of the operand otherwise. -/
def operand? (place? : UInt16 → Option Nat) (e : Emission) : Option Nat :=
  match e.op.shape?, e.operands with
  | some shape, value :: _ =>
    if e.op.isJump then place? e.label else some (value % 256 ^ shape.width).toNat
  | _, _ => none

/-- The instruction before its label is resolved. -/
def instruction (e : Emission) : Instruction := ⟨e.pc, e.op, e.operands.head?.map operandWord⟩

end Emission

/-! ### Histories and buffers -/

section Lists

variable (events : List Event) (e : Emission) (label : Label) (size : Nat)

@[simp] theorem emissions_emitted :
  emissions (events ++ [.emitted e]) = emissions events ++ [e]
  := by
  simp [emissions, Event.emission?]

@[simp] theorem emissions_bound :
  emissions (events ++ [.bound label size]) = emissions events
  := by
  simp [emissions, Event.emission?]

theorem lastPlace?_snoc (event : Event) (number : UInt16) :
  lastPlace? (events ++ [event]) number = (event.place? number).or (lastPlace? events number)
  := by
  rw [lastPlace?, lastPlace?, List.reverse_append, List.reverse_singleton, List.singleton_append,
    List.findSome?_cons]
  cases event.place? number with
  | none => rfl
  | some size => rfl

@[simp] theorem lastPlace?_emitted (number : UInt16) :
  lastPlace? (events ++ [.emitted e]) number = lastPlace? events number
  := lastPlace?_snoc events _ number

theorem lastPlace?_bound (number : UInt16) :
  lastPlace? (events ++ [.bound label size]) number
    = if label.number = number then some size else lastPlace? events number
  := by
  rw [lastPlace?_snoc, Event.place?]
  split
  · rfl
  · rfl

end Lists

variable {events : List Event} {b b' : CodeBuffer}
variable {line : UInt32} {op : Op} {operands : List Int} {pc : Nat}

/-- A buffer holds the instructions of its history, and knows the places of its labels. -/
structure Follows (events : List Event) (b : CodeBuffer) : Prop where
  walk : Walk b.code 0 b.code.size ((emissions events).map Emission.instruction)
  arity : ∀ e ∈ emissions events, e.operands.length = e.op.arity
  places : ∀ number, b.place? number = lastPlace? events number
  bounded : ∀ number place, lastPlace? events number = some place → place ≤ b.code.size

theorem tryEmit_eq_ok (done : tryEmit line op operands b = .ok pc b') :
  operands.length = op.arity ∧ emit line op operands b = .ok pc b'
  := by
  unfold tryEmit at done
  split at done
  · next arity =>
      refine ⟨arity, ?_⟩
      cases emitted : emit line op operands b with
      | ok pc' b'' =>
        rw [emitted] at done
        cases done
        rfl
      | error defect b'' =>
        rw [emitted] at done
        cases done
  · cases done

theorem emit_pc (emitted : emit line op operands b = .ok pc b') :
  pc = b.code.size
  := by
  simp only [emit] at emitted
  split at emitted
  · split at emitted
    · cases emitted
    · cases emitted
      rfl
  · cases emitted
    rfl

theorem Follows.emit (follows : Follows events b) (done : tryEmit line op operands b = .ok pc b') :
  Follows (events ++ [.emitted ⟨pc, op, operands⟩]) b'
  := by
  obtain ⟨arity, emitted⟩ := tryEmit_eq_ok done
  obtain rfl := emit_pc emitted
  obtain ⟨labels, -, -, ⟨bytes, code, size⟩, fetched⟩ := emit_eq_ok arity emitted
  have total : b'.code.size = b.code.size + op.size := by simp [code, size]
  constructor
  case walk =>
    rw [emissions_emitted, List.map_append]
    apply Walk.append
    · apply follows.walk.congr
      · omega
      · intro j _ inside
        rw [code, Array.getElem?_append_left inside]
    · apply Walk.cons fetched
      change Walk b'.code (b.code.size + op.size) b'.code.size []
      rw [← total]
      exact .nil _
  case arity =>
    intro e listed
    rw [emissions_emitted] at listed
    rcases List.mem_append.1 listed with earlier | new
    · exact follows.arity e earlier
    · obtain rfl := List.mem_singleton.1 new
      exact arity
  case places =>
    intro number
    rw [lastPlace?_emitted, ← follows.places number, CodeBuffer.place?, CodeBuffer.place?, labels]
  case bounded =>
    intro number place last
    rw [lastPlace?_emitted] at last
    have := follows.bounded number place last
    omega

theorem Follows.newLabel (follows : Follows events b) :
  Follows events b.newLabel.2
  where
  walk := follows.walk
  arity := follows.arity
  places number := by
    rw [← follows.places number]
    simp only [CodeBuffer.place?, CodeBuffer.newLabel, Array.getElem?_push]
    split
    · next last => simp [last]
    · rfl
  bounded := follows.bounded

theorem Follows.setLabel (follows : Follows events b) {label : Label}
    (done : trySetLabel label b = .ok () b') :
  Follows (events ++ [.bound label b.size]) b'
  := by
  unfold trySetLabel at done
  split at done
  case isFalse => cases done
  case isTrue made =>
    cases done
    constructor
    case walk =>
      rw [emissions_bound]
      exact follows.walk
    case arity =>
      rw [emissions_bound]
      exact follows.arity
    case places =>
      intro number
      rw [lastPlace?_bound, ← follows.places number]
      simp only [CodeBuffer.place?, CodeBuffer.setLabel, Array.getElem?_setIfInBounds,
        ← UInt16.toNat_inj]
      split
      · next same => simp [CodeBuffer.size]
      · rfl
    case bounded =>
      intro number place last
      rw [lastPlace?_bound] at last
      split at last
      · cases last
        exact Nat.le_refl _
      · exact follows.bounded number place last

theorem Written.follows (written : Written events b) :
  Follows events b
  := by
  induction written with
  | new => exact ⟨.nil 0, by simp [emissions], by simp [place?, lastPlace?], by simp [lastPlace?]⟩
  | emit _ done ih => exact ih.emit done
  | emitJump _ done ih =>
    unfold tryEmitJump at done
    split at done
    · exact ih.emit done
    · cases done
  | newLabel _ ih => exact ih.newLabel
  | setLabel _ done ih => exact ih.setLabel done

/-! ### Finished code -/

/-- The first jump to a label without a place decides whether resolution fails. -/
theorem resolve_eq_error_or_ok (b : CodeBuffer) {es : List Emission} (code : Array UInt8)
    (arity : ∀ e ∈ es, e.operands.length = e.op.arity) :
  match es.find? (Emission.isOpen b.place?) with
  | some e => b.resolve (es.map Emission.instruction) code = .error (.unresolvedLabel e.label)
  | none => ∃ code', b.resolve (es.map Emission.instruction) code = .ok code'
  := by
  induction es generalizing code with
  | nil => exact ⟨code, rfl⟩
  | cons e es ih =>
    have later := fun code => ih code fun e' listed => arity e' (List.mem_cons_of_mem e listed)
    rw [List.map_cons, resolve]
    by_cases jump : e.op.isJump
    · have named : (e.instruction.operand.getD 0) = e.label := by
        have one := arity e List.mem_cons_self
        rw [Op.arity, Op.isJump_shape? jump] at one
        obtain ⟨value, single⟩ := List.length_eq_one_iff.1 one
        simp [Emission.instruction, Emission.label, single]
      rw [if_pos (show e.instruction.op.isJump from jump)]
      simp only [named]
      cases found : b.place? e.label with
      | none =>
        have isOpen : e.isOpen b.place? := by simp [Emission.isOpen, jump, found]
        rw [List.find?_cons_of_pos isOpen]
      | some address =>
        have closed : ¬ e.isOpen b.place? := by simp [Emission.isOpen, found]
        rw [List.find?_cons_of_neg closed]
        exact later _
    · have closed : ¬ e.isOpen b.place? := by simp [Emission.isOpen, jump]
      rw [if_neg (show ¬ e.instruction.op.isJump from jump), List.find?_cons_of_neg closed]
      exact later _

/-- What `finish` does depends on the size of the code and on the first open jump. -/
theorem Follows.finish_eq (follows : Follows events b) (fits : b.code.size ≤ maxCodeSize) :
  match (emissions events).find? (Emission.isOpen (lastPlace? events)) with
  | some e => b.finish = .error (.unresolvedLabel e.label)
  | none => ∃ block, b.finish = .ok block
  := by
  have places : b.place? = lastPlace? events := funext follows.places
  have resolution := resolve_eq_error_or_ok b b.code follows.arity
  rw [← places]
  rw [finish, if_neg (by omega), decode_eq_of_walk follows.walk]
  split
  · next e found =>
      rw [found] at resolution
      simp only [resolution]
  · next none =>
      rw [none] at resolution
      obtain ⟨code, done⟩ := resolution
      exact ⟨⟨code, b.lines⟩, by simp only [done]⟩

/-- An operand has no more bytes than its form says. -/
theorem operandAt_lt (code : Array UInt8) (pc : Nat) (shape : Shape) :
  (operandAt code pc shape).toNat < 256 ^ shape.width
  := by
  cases shape with
  | byte =>
    have := (byteAt code pc).toNat_lt
    simpa [operandAt, Shape.width] using this
  | short | pool => exact UInt16.toNat_lt _

/-- The finished form of an instruction of the buffer. -/
theorem Follows.operand_resolved (follows : Follows events b) (fits : b.code.size ≤ maxCodeSize)
    {e : Emission} (listed : e ∈ emissions events) (closed : ¬ e.isOpen (lastPlace? events)) :
  (b.resolved e.instruction).operand.map UInt16.toNat = e.operand? (lastPlace? events)
  := by
  have arity := follows.arity e listed
  obtain ⟨-, -, fetched⟩ := follows.walk.mem_bounds (List.mem_map_of_mem listed)
  obtain ⟨-, -, -, operand⟩ := fetch_eq_ok_iff.1 fetched
  unfold Op.arity at arity
  cases shaped : e.op.shape? with
  | none =>
    have jumpless : ¬ e.op.isJump := fun jump => by simp [Op.isJump_shape? jump] at shaped
    rw [shaped] at arity
    have empty := List.length_eq_zero_iff.1 arity
    simp [resolved, Emission.instruction, Emission.operand?, jumpless, shaped, empty]
  | some shape =>
    rw [shaped] at arity
    obtain ⟨value, single⟩ := List.length_eq_one_iff.1 arity
    by_cases jump : e.op.isJump
    · obtain ⟨place, found⟩ : ∃ place, lastPlace? events e.label = some place := by
        simpa [Emission.isOpen, jump, Option.ne_none_iff_exists'] using closed
      have small := follows.bounded _ _ found
      have same : b.place? (operandWord value) = some place := by
        rw [follows.places, ← found, Emission.label, single]
        rfl
      have whole : place.toUInt16.toNat = place := by
        unfold maxCodeSize at fits
        simp only [Nat.toUInt16, UInt16.toNat_ofNat']
        omega
      simp [resolved, Emission.instruction, Emission.operand?, jump, shaped, single, same, found,
        whole]
    · have word : operandWord value = operandAt b.code (e.pc + 1) shape := by
        simpa [Emission.instruction, single, shaped] using operand
      have small := operandAt_lt b.code (e.pc + 1) shape
      rw [← word] at small
      have modulo := toNat_operandWord value
      have same : (operandWord value).toNat = (value % 256 ^ shape.width).toNat := by
        cases shape with
        | byte | short | pool =>
          simp only [Shape.width] at small ⊢
          omega
      simp [resolved, Emission.instruction, Emission.operand?, jump, shaped, single, same]

/-- Finishing a buffer that was written by successful requests fails only if the code is too large
or if a jump names a label that was never bound, and it reports the first such jump. Otherwise the
finished code consists exactly of the instructions that were requested, where they were appended,
with the labels replaced by the places where they were bound last. -/
theorem finish_of_written (written : Written events b) :
  (b.finish = .error .codeTooLarge ↔ 65535 < b.size)
    ∧ (b.size ≤ 65535 →
      (∀ number, b.finish = .error (.unresolvedLabel number)
        ↔ ((emissions events).find? (Emission.isOpen (lastPlace? events))).map Emission.label
          = some number)
      ∧ ((emissions events).find? (Emission.isOpen (lastPlace? events)) = none →
        ∃ block is, b.finish = .ok block ∧ decode block.code = ⟨is, none⟩
          ∧ Walk block.code 0 block.code.size is ∧ block.code.size = b.size
          ∧ is.map (fun i => (i.pc, i.op, i.operand.map UInt16.toNat))
            = (emissions events).map fun e => (e.pc, e.op, e.operand? (lastPlace? events))))
  := by
  have follows := written.follows
  have outcome := follows.finish_eq
  refine ⟨⟨?_, ?_⟩, ?_⟩
  · intro failed
    by_contra fits
    have outcome := outcome (Nat.not_lt.1 fits)
    rw [failed] at outcome
    split at outcome
    · cases outcome
    · obtain ⟨block, finished⟩ := outcome
      cases finished
  · intro large
    exact if_pos large
  · intro fits
    have outcome := outcome fits
    refine ⟨?_, ?_⟩
    · intro number
      split at outcome
      · next e found => simp [outcome, found]
      · next none =>
          obtain ⟨block, finished⟩ := outcome
          simp [finished, none]
    · intro none
      rw [none] at outcome
      obtain ⟨block, finished⟩ := outcome
      obtain ⟨-, -, size, walk, -⟩ := finish_eq_ok follows.walk finished
      refine ⟨block, _, finished, decode_eq_of_walk walk, walk, size, ?_⟩
      rw [List.map_map, List.map_map]
      apply List.map_congr_left
      intro e listed
      have closed := List.find?_eq_none.1 none e listed
      simp only [Function.comp_apply, resolved_pc, resolved_op,
        follows.operand_resolved fits listed closed]
      rfl

/-- A loop whose exit is bound twice: the jump out of it leads to where it was bound last. -/
theorem finish_loop :
  ∃ events b block is, Written events b
    ∧ events = [.bound ⟨0⟩ 0, .emitted ⟨0, .pushNull, []⟩, .emitted ⟨1, .jumpIfFalse, [1]⟩,
      .bound ⟨1⟩ 4, .emitted ⟨4, .jump, [0]⟩, .bound ⟨1⟩ 7, .emitted ⟨7, .pushInt2Byte, [-2]⟩]
    ∧ b.finish = .ok block ∧ decode block.code = ⟨is, none⟩
    ∧ is.map (fun i => (i.pc, i.op, i.operand.map UInt16.toNat))
      = [(0, .pushNull, none), (1, .jumpIfFalse, some 7), (4, .jump, some 0),
        (7, .pushInt2Byte, some 65534)]
  := by
  have tested : tryEmitJump 1 .jumpIfFalse ⟨1⟩ ⟨#[7], #[some 0, none], #[⟨1, 0, 1⟩]⟩
      = .ok 1 ⟨#[7, 75, 0, 1], #[some 0, none], #[⟨1, 0, 4⟩]⟩ := by cbv
  have repeated : tryEmitJump 2 .jump ⟨0⟩ ⟨#[7, 75, 0, 1], #[some 0, some 4], #[⟨1, 0, 4⟩]⟩
      = .ok 4 ⟨#[7, 75, 0, 1, 73, 0, 0], #[some 0, some 4], #[⟨1, 0, 4⟩, ⟨2, 4, 3⟩]⟩ := by cbv
  have ended : tryEmit 3 .pushInt2Byte [-2]
        ⟨#[7, 75, 0, 1, 73, 0, 0], #[some 0, some 7], #[⟨1, 0, 4⟩, ⟨2, 4, 3⟩]⟩
      = .ok 7 ⟨#[7, 75, 0, 1, 73, 0, 0, 1, 255, 254], #[some 0, some 7],
        #[⟨1, 0, 4⟩, ⟨2, 4, 3⟩, ⟨3, 7, 3⟩]⟩ := by cbv
  have start := Written.new.newLabel.newLabel.setLabel (rfl : trySetLabel ⟨0⟩ _ = _)
  have test := (start.emit (rfl : tryEmit 1 .pushNull [] _ = _)).emitJump tested
  have back := (test.setLabel (rfl : trySetLabel ⟨1⟩ _ = _)).emitJump repeated
  have written := (back.setLabel (rfl : trySetLabel ⟨1⟩ _ = _)).emit ended
  obtain ⟨-, fixed⟩ := finish_of_written written
  obtain ⟨block, is, finished, decoded, -, -, listed⟩ := (fixed (by decide)).2 (by decide)
  exact ⟨_, _, block, is, written, rfl, finished, decoded, listed⟩

end CodeBuffer

end Bytecode
