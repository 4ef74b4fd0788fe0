import Mathlib
import Bytecode.Proofs.Action
import Bytecode.Proofs.Code.Decoding

/-!
# Decoding any bytes

Bytes need not come from a code buffer. `decode` takes any byte sequence apart into instructions
that follow each other from its start, up to its end or up to the first place without one. Appended
to a buffer again, these instructions give back the bytes before that place; there, the byte is no
opcode, or there are too few bytes for its operand.
-/

namespace Bytecode

variable {code : Array UInt8} {pc stop start : Nat} {b : CodeBuffer}

/-- The instructions follow each other from one place to another. -/
def Consecutive : Nat → List Instruction → Nat → Prop
  | start, [], stop => start = stop
  | start, i :: rest, stop => i.pc = start ∧ Consecutive i.nextPc rest stop

/-- Append instructions with their operands as they were decoded, under any lines. Yielded are the
places where they have been put. -/
def CodeBuffer.reemit (lineOf : Instruction → UInt32) :
    List Instruction → EStateM (Stop Defect) CodeBuffer (List Nat)
  | [] => pure []
  | i :: rest => do
    let pc ← tryEmit (lineOf i) i.op (i.operands.map fun operand => (operand.toNat : Int))
    return pc :: (← reemit lineOf rest)

/-! ### Where decoding ends -/

/-- A byte encodes at most one opcode. -/
theorem Op.ofByte?_eq_some_iff {byte : UInt8} {op : Op} :
  Op.ofByte? byte = some op ↔ op.byte = byte
  := by
  constructor
  · intro found
    have places : ∀ i : Fin Op.table.size, (Op.table[i]).byte.toNat = i := by decide +kernel
    obtain ⟨inside, rfl⟩ := Array.getElem?_eq_some_iff.1 found
    exact UInt8.toNat_inj.1 (places ⟨byte.toNat, inside⟩)
  · rintro rfl
    exact Op.ofByte?_byte op

theorem Op.ofByte?_eq_none_iff {byte : UInt8} :
  Op.ofByte? byte = none ↔ ∀ op : Op, op.byte ≠ byte
  := by
  rw [Option.eq_none_iff_forall_ne_some]
  exact forall_congr' fun op => not_congr Op.ofByte?_eq_some_iff

/-- There is no instruction at the place, for one of the two causes. -/
def NoInstruction (code : Array UInt8) (pc : Nat) (e : DecodeError) : Prop :=
  ∃ byte, code[pc]? = some byte
    ∧ ((e = .unknownOpcode byte pc ∧ ∀ op : Op, op.byte ≠ byte)
      ∨ (e = .truncated pc ∧ ∃ op : Op, op.byte = byte ∧ code.size < pc + op.size))

theorem fetch_eq_error_iff (inside : pc < code.size) {e : DecodeError} :
  fetch code pc = .error e ↔ NoInstruction code pc e
  := by
  have found : code[pc]? = some (byteAt code pc) := by
    simp [byteAt, inside]
  simp only [NoInstruction, found, Option.some.injEq, exists_eq_left', fetch,
    ← Op.ofByte?_eq_none_iff, ← Op.ofByte?_eq_some_iff]
  cases opcode : Op.ofByte? (byteAt code pc) with
  | none => simp [eq_comm]
  | some op =>
    by_cases short : code.size < pc + op.size
    · simp [short, eq_comm]
    · simp [short]

/-- Decoding walks up to the end of the code or to the first place without an instruction. -/
theorem exists_walk_decodeFrom (code : Array UInt8) (fuel start : Nat)
    (enough : code.size - start ≤ fuel) (inside : start ≤ code.size) :
  ∃ stop ≤ code.size, Walk code start stop (decodeFrom code fuel start).instructions
    ∧ ((decodeFrom code fuel start).error = none ∧ stop = code.size
      ∨ ∃ e, (decodeFrom code fuel start).error = some e ∧ stop < code.size
        ∧ fetch code stop = .error e)
  := by
  induction fuel generalizing start with
  | zero =>
    have atEnd : start = code.size := by omega
    exact ⟨start, inside, .nil start, .inl ⟨rfl, atEnd⟩⟩
  | succ fuel ih =>
    rw [decodeFrom]
    by_cases before : start < code.size
    · rw [if_pos before]
      cases fetched : fetch code start with
      | error e => exact ⟨start, inside, .nil start, .inr ⟨e, rfl, before, fetched⟩⟩
      | ok i =>
        have forward := lt_nextPc i
        have place := fetch_pc fetched
        obtain ⟨stop, within, walk, outcome⟩ :=
          ih i.nextPc (by omega) (nextPc_le_size fetched)
        exact ⟨stop, within, .cons fetched walk, outcome⟩
    · rw [if_neg before]
      exact ⟨start, inside, .nil start, .inl ⟨rfl, by omega⟩⟩

theorem Walk.consecutive {is : List Instruction} (walk : Walk code start stop is) :
  Consecutive start is stop
  := by
  induction walk with
  | nil pc => rfl
  | cons fetched _ ih => exact ⟨fetch_pc fetched, ih⟩

/-! ### Appending what was decoded -/

theorem split_joinBytes (high low : UInt8) :
  ((joinBytes high low).toNat / 256).toUInt8 = high ∧ (joinBytes high low).toNat.toUInt8 = low
  := by
  have highBound := high.toNat_lt
  have lowBound := low.toNat_lt
  have word : (joinBytes high low).toNat = high.toNat * 256 + low.toNat := by
    simp only [joinBytes, UInt16.toNat_add, UInt16.toNat_mul, UInt8.toNat_toUInt16,
      UInt16.reduceToNat]
    omega
  rw [word]
  constructor
  · apply UInt8.toNat_inj.1
    simp only [Nat.toUInt8, UInt8.toNat_ofNat']
    omega
  · apply UInt8.toNat_inj.1
    simp only [Nat.toUInt8, UInt8.toNat_ofNat']
    omega

theorem extract_succ (first : start ≤ stop) (inside : stop < code.size) :
  code.extract start (stop + 1) = (code.extract start stop).push (byteAt code stop)
  := by
  rw [Array.extract_succ_right (by omega) inside]
  simp [byteAt, inside]

/-- An operand that was decoded is encoded by the bytes that it was decoded from. -/
theorem Shape.encode?_operandAt (shape : Shape) (code : Array UInt8) (pc : Nat)
    (inside : pc + shape.width ≤ code.size) :
  shape.encode? (operandAt code pc shape).toNat = some (code.extract pc (pc + shape.width))
  := by
  have word (high low : UInt8) : ((joinBytes high low).toNat : Int) < 65536
      ∧ (((joinBytes high low).toNat : Int) % 65536).toNat = (joinBytes high low).toNat := by
    have bound := (joinBytes high low).toNat_lt
    omega
  have two (fits : pc + 2 ≤ code.size) :
      code.extract pc (pc + 2) = #[byteAt code pc, byteAt code (pc + 1)] := by
    rw [extract_succ (by omega) (by omega), extract_succ (by omega) (by omega)]
    simp
  cases shape with
  | byte =>
    have bound := (byteAt code pc).toNat_lt
    have fits : pc < code.size := inside
    rw [show Shape.byte.width = 1 from rfl, extract_succ (by omega) fits]
    simp only [encode?, operandAt, UInt8.toNat_toUInt16]
    rw [if_pos (by omega)]
    simp
  | short =>
    rw [show Shape.short.width = 2 from rfl, two inside]
    simp only [encode?, operandAt, word, (split_joinBytes _ _).1, (split_joinBytes _ _).2]
    rw [if_pos ⟨by omega, trivial⟩]
  | pool =>
    rw [show Shape.pool.width = 2 from rfl, two inside]
    simp only [encode?, operandAt, word, (split_joinBytes _ _).1, (split_joinBytes _ _).2]
    rw [if_pos ⟨by omega, trivial⟩]

theorem CodeBuffer.tryEmit_of_emit {line : UInt32} {op : Op} {operands : List Int}
    {b' : CodeBuffer} (arity : operands.length = op.arity)
    (emitted : emit line op operands b = .ok pc b') :
  tryEmit line op operands b = .ok pc b'
  := by
  rw [tryEmit, if_pos arity, emitted]

/-- What appending a decoded instruction adds to a buffer are the bytes of the instruction. -/
theorem CodeBuffer.tryEmit_of_fetch {i : Instruction} (fetched : fetch code pc = .ok i)
    (before : b.code = code.extract 0 pc) (line : UInt32) :
  ∃ b', tryEmit line i.op (i.operands.map fun operand => (operand.toNat : Int)) b = .ok pc b'
    ∧ b'.code = code.extract 0 i.nextPc
  := by
  obtain ⟨rfl, opcode, inside, operand⟩ := fetch_eq_ok_iff.1 fetched
  have positive := i.op.size_pos
  have size : b.code.size = i.pc := by
    rw [before, Array.size_extract]
    omega
  have first : b.code.push i.op.byte = code.extract 0 (i.pc + 1) := by
    rw [before, Op.ofByte?_eq_some_iff.1 opcode, extract_succ (Nat.zero_le _) (by omega)]
  unfold Instruction.operands Instruction.nextPc
  cases shaped : i.op.shape? with
  | none =>
    have one : i.op.size = 1 := by simp [Op.size, shaped]
    have emitted : emit line i.op [] b = .ok b.code.size
        { b with code := b.code.push i.op.byte, lines := addLine b.lines line b.code.size 1 } := by
      simp [emit, shaped]
    rw [size] at emitted
    rw [operand, shaped, one]
    exact ⟨_, tryEmit_of_emit (by simp [Op.arity, shaped]) emitted, first⟩
  | some shape =>
    have whole : i.op.size = 1 + shape.width := by simp [Op.size, shaped]
    have encoded := shape.encode?_operandAt code (i.pc + 1) (by omega)
    have emitted : emit line i.op [((operandAt code (i.pc + 1) shape).toNat : Int)] b
        = .ok b.code.size { b with
            code := b.code.push i.op.byte ++ code.extract (i.pc + 1) (i.pc + 1 + shape.width)
            lines := addLine b.lines line b.code.size
              (1 + (code.extract (i.pc + 1) (i.pc + 1 + shape.width)).size) } := by
      simp only [emit, shaped, encoded]
    rw [size] at emitted
    rw [operand, shaped, whole]
    refine ⟨_, tryEmit_of_emit (by simp [Op.arity, shaped]) emitted, ?_⟩
    rw [first, Array.extract_append_extract, Nat.zero_min, Nat.max_eq_right (by omega),
      Nat.add_assoc]

/-- Appended to a buffer, the instructions of a walk from the start of the code give its bytes. -/
theorem CodeBuffer.reemit_of_walk {is : List Instruction} (walk : Walk code start stop is)
    (before : b.code = code.extract 0 start) (lineOf : Instruction → UInt32) :
  ∃ b', reemit lineOf is b = .ok (is.map (·.pc)) b' ∧ b'.code = code.extract 0 stop
  := by
  induction walk generalizing b with
  | nil pc => exact ⟨b, rfl, before⟩
  | @cons pc stop i rest fetched _ ih =>
    obtain ⟨b₁, emitted, after⟩ := tryEmit_of_fetch fetched before (lineOf i)
    obtain ⟨b₂, others, last⟩ := ih after
    refine ⟨b₂, ?_, last⟩
    rw [reemit, bind_of_ok emitted, bind_of_ok others, List.map_cons, fetch_pc fetched]
    rfl

/-- Every byte sequence is decoded into instructions that follow each other from its start. Appended
to a buffer with their decoded operands they give back exactly the bytes before the place where
decoding has ended. That is the end of the bytes if there is no error; otherwise the byte there is no
opcode, or it is one but there are too few bytes for its operand, and the error says which. -/
theorem decode_exact (code : Array UInt8) (lineOf : Instruction → UInt32) :
  ∃ stop ≤ code.size, Consecutive 0 (decode code).instructions stop
    ∧ (∃ b, CodeBuffer.reemit lineOf (decode code).instructions {}
        = .ok ((decode code).instructions.map (·.pc)) b ∧ b.code = code.extract 0 stop)
    ∧ ((decode code).error = none ↔ stop = code.size)
    ∧ ∀ e, (decode code).error = some e ↔ NoInstruction code stop e
  := by
  obtain ⟨stop, within, walk, outcome⟩ :=
    exists_walk_decodeFrom code code.size 0 (by omega) (Nat.zero_le _)
  refine ⟨stop, within, walk.consecutive, ?_, ?_⟩
  · apply CodeBuffer.reemit_of_walk walk
    simp
  · change ((decodeFrom code code.size 0).error = none ↔ _)
      ∧ ∀ e, (decodeFrom code code.size 0).error = some e ↔ _
    rcases outcome with ⟨complete, rfl⟩ | ⟨e, failed, before, unfetched⟩
    · simp [complete, NoInstruction]
    · have cause := (fetch_eq_error_iff before).1 unfetched
      rw [failed]
      refine ⟨by simp; omega, ?_⟩
      intro e'
      rw [← fetch_eq_error_iff before, unfetched]
      simp

end Bytecode
