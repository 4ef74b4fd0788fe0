import Mathlib
import Bytecode.Proofs.Code.Decoding

/-!
# Code buffers and the resolution of labels

`CodeBuffer.emit` appends exactly one instruction. `CodeBuffer.finish` follows the walk through
the code and replaces the operand of every jump, which is the number of a label, by the place of
that label; all other instructions stay as they were emitted.
-/

namespace Bytecode

namespace CodeBuffer

variable {b : CodeBuffer} {is : List Instruction} {code : Array UInt8}

/-- What an instruction that was emitted adds to a buffer. -/
theorem emit_eq_ok {line : UInt32} {op : Op} {operands : List Int} {b' : CodeBuffer} {pc : Nat}
    (arity : operands.length = op.arity) (emitted : emit line op operands b = .ok pc b') :
  b'.labels = b.labels ∧ b'.lines = addLine b.lines line b.code.size op.size
    ∧ (∀ value ∈ operands, -32768 ≤ value ∧ value < 65536)
    ∧ (∃ bytes, b'.code = b.code ++ bytes ∧ bytes.size = op.size)
    ∧ fetch b'.code b.code.size
        = .ok ⟨b.code.size, op, operands.head?.map operandWord⟩
  := by
  simp only [emit] at emitted
  unfold Op.arity at arity
  cases shaped : op.shape? with
  | none =>
    have size : op.size = 1 := by simp [Op.size, shaped]
    rw [shaped] at emitted arity
    obtain rfl := List.length_eq_zero_iff.1 arity
    cases emitted
    refine ⟨rfl, by rw [size], by simp, ⟨#[op.byte], by simp, by simp [size]⟩, ?_⟩
    apply fetch_eq_ok_iff.2
    refine ⟨rfl, ?_, ?_, ?_⟩
    · simp [byteAt]
    · simp [size]
    · simp [shaped]
  | some shape =>
    have size : op.size = 1 + shape.width := by simp [Op.size, shaped]
    rw [shaped] at emitted arity
    obtain ⟨value, rfl⟩ := List.length_eq_one_iff.1 arity
    simp only at emitted
    cases encoded : shape.encode? value with
    | none =>
      rw [encoded] at emitted
      cases emitted
    | some bytes =>
      rw [encoded] at emitted
      cases emitted
      obtain ⟨width, lower, upper, decoded⟩ := Shape.encode?_eq_some encoded
      refine ⟨rfl, ?_, by simp [lower, upper], ⟨#[op.byte] ++ bytes, ?_, ?_⟩, ?_⟩
      · simp only [width, size]
      · simp [← Array.append_assoc]
      · simp [width, size]
      · apply fetch_eq_ok_iff.2
        refine ⟨rfl, ?_, ?_, ?_⟩
        · rw [byteAt, Array.getD_eq_getD_getElem?, Array.getElem?_append_left (by simp)]
          simp
        · simp [size, width]
          omega
        · simp only [List.head?_cons, Option.map_some, shaped]
          rw [← decoded (b.code.push op.byte), Array.size_push]

/-- An instruction is refused only if its operand does not fit. -/
theorem emit_eq_error {line : UInt32} {op : Op} {operands : List Int} {b' : CodeBuffer}
    {defect : Defect} (failed : emit line op operands b = .error defect b') :
  ∃ value, defect = .operandOutOfRange op.mnemonic value
  := by
  unfold emit at failed
  split at failed
  · split at failed
    · cases failed
      exact ⟨_, rfl⟩
    · cases failed
  · cases failed

/-! ### Resolution -/

/-- A jump with the place of its label as operand, and any other instruction as it is. -/
def resolved (b : CodeBuffer) (i : Instruction) : Instruction :=
  if i.op.isJump then
    { i with operand := ((b.place? (i.operand.getD 0)).map Nat.toUInt16) }
  else i

@[simp] theorem resolved_pc (b : CodeBuffer) (i : Instruction) :
  (b.resolved i).pc = i.pc
  := by
  unfold resolved
  split
  all_goals rfl

@[simp] theorem resolved_op (b : CodeBuffer) (i : Instruction) :
  (b.resolved i).op = i.op
  := by
  unfold resolved
  split
  all_goals rfl

@[simp] theorem resolved_nextPc (b : CodeBuffer) (i : Instruction) :
  (b.resolved i).nextPc = i.nextPc
  := by
  simp [Instruction.nextPc]

theorem size_patchAt (code : Array UInt8) (at_ address : Nat) :
  (patchAt code at_ address).size = code.size
  := by
  simp [patchAt]

theorem getElem?_patchAt {at_ address j : Nat} (outside : j < at_ ∨ at_ + 1 < j) :
  (patchAt code at_ address)[j]? = code[j]?
  := by
  unfold patchAt
  rw [Array.getElem?_setIfInBounds_ne (by omega), Array.getElem?_setIfInBounds_ne (by omega)]

/-- Patching the operand of a jump makes it a jump to the address. -/
theorem fetch_patchAt {pc : Nat} {i : Instruction} (fetched : fetch code pc = .ok i)
    (jump : i.op.isJump) (address : Nat) :
  fetch (patchAt code (pc + 1) address) pc = .ok { i with operand := some address.toUInt16 }
  := by
  obtain ⟨rfl, opcode, fits, -⟩ := fetch_eq_ok_iff.1 fetched
  have shaped := Op.isJump_shape? jump
  have size : i.op.size = 3 := by simp [Op.size, shaped, Shape.width]
  apply fetch_eq_ok_iff.2
  refine ⟨rfl, ?_, ?_, ?_⟩
  · rw [byteAt_congr (getElem?_patchAt (.inl (by omega))), opcode]
  · rw [size_patchAt]
    exact fits
  · have high : byteAt (patchAt code (i.pc + 1) address) (i.pc + 1) = (address / 256).toUInt8 := by
      simp only [byteAt, patchAt, Array.getD_eq_getD_getElem?]
      rw [Array.getElem?_setIfInBounds_ne (by omega), Array.getElem?_setIfInBounds_self,
        if_pos (by omega)]
      rfl
    have low : byteAt (patchAt code (i.pc + 1) address) (i.pc + 1 + 1) = address.toUInt8 := by
      simp only [byteAt, patchAt, Array.getD_eq_getD_getElem?]
      rw [Array.getElem?_setIfInBounds_self, if_pos (by rw [Array.size_setIfInBounds]; omega)]
      rfl
    simp only [shaped, Option.map_some, operandAt, high, low, joinBytes_split]

/-- Resolving the instructions of a walk changes only bytes on the walk, and leaves a walk
through the resolved instructions. -/
theorem resolve_eq_ok {code' : Array UInt8} {start stop : Nat} (walk : Walk code start stop is)
    (fits : stop ≤ code.size) (done : b.resolve is code = .ok code') :
  code'.size = code.size ∧ (∀ j, j < start ∨ stop ≤ j → code'[j]? = code[j]?)
    ∧ Walk code' start stop (is.map b.resolved)
    ∧ ∀ i ∈ is, i.op.isJump → (b.place? (i.operand.getD 0)).isSome
  := by
  induction is generalizing code start with
  | nil =>
    cases walk
    cases done
    exact ⟨rfl, fun _ _ => rfl, .nil _, by simp⟩
  | cons i rest ih =>
    cases walk with
    | cons fetched walk =>
      have place := fetch_pc fetched
      have forward := lt_nextPc i
      have inside := walk.le
      rw [resolve] at done
      by_cases jump : i.op.isJump
      · rw [if_pos jump] at done
        simp only at done
        cases found : b.place? (i.operand.getD 0) with
        | none =>
          rw [found] at done
          cases done
        | some address =>
          have size : i.op.size = 3 := by
            simp [Op.size, Op.isJump_shape? jump, Shape.width]
          have next : i.nextPc = i.pc + i.op.size := rfl
          rw [found] at done
          have patched := fetch_patchAt fetched jump address
          rw [place] at done
          have later : Walk (patchAt code (start + 1) address) i.nextPc stop rest := by
            apply walk.congr
            · rw [size_patchAt]
              exact fits
            · intro j lower _
              exact getElem?_patchAt (.inr (by omega))
          obtain ⟨sameSize, same, walked, placed⟩ :=
            ih later (by rw [size_patchAt]; exact fits) done
          rw [size_patchAt] at sameSize
          refine ⟨sameSize, ?_, ?_, ?_⟩
          · intro j outside
            rw [same j (by omega), getElem?_patchAt (by omega)]
          · apply Walk.cons
            · have unchanged : b.resolved i
                  = { i with operand := some address.toUInt16 } := by
                simp [resolved, jump, found]
              rw [unchanged]
              apply fetch_congr patched
              · change i.nextPc ≤ _
                omega
              · intro j _ upper
                exact same j (.inl upper)
            · rw [resolved_nextPc]
              exact walked
          · intro k listed jumps
            rcases List.mem_cons.1 listed with rfl | inRest
            · simp [found]
            · exact placed k inRest jumps
      · rw [if_neg jump] at done
        obtain ⟨sameSize, same, walked, placed⟩ := ih walk fits done
        refine ⟨sameSize, ?_, ?_, ?_⟩
        · intro j outside
          exact same j (by omega)
        · apply Walk.cons
          · have unchanged : b.resolved i = i := by simp [resolved, jump]
            rw [unchanged]
            apply fetch_congr fetched
            · omega
            · intro j _ upper
              exact same j (.inl upper)
          · rw [resolved_nextPc]
            exact walked
        · intro k listed jumps
          rcases List.mem_cons.1 listed with rfl | inRest
          · exact absurd jumps jump
          · exact placed k inRest jumps

/-- Instructions can be resolved if the labels of their jumps have places. -/
theorem exists_resolve (placed : ∀ i ∈ is, i.op.isJump → (b.place? (i.operand.getD 0)).isSome)
    (code : Array UInt8) :
  ∃ code', b.resolve is code = .ok code'
  := by
  induction is generalizing code with
  | nil => exact ⟨code, rfl⟩
  | cons i rest ih =>
    have later := fun code => ih (fun j listed => placed j (List.mem_cons_of_mem i listed)) code
    rw [resolve]
    by_cases jump : i.op.isJump
    · obtain ⟨address, found⟩ := Option.isSome_iff_exists.1 (placed i List.mem_cons_self jump)
      rw [if_pos jump]
      simp only [found]
      exact later _
    · rw [if_neg jump]
      exact later code

/-- Code in which the labels of all jumps have places is finished unless it is too long. -/
theorem finish_eq_error {defect : Defect} (walk : Walk b.code 0 b.code.size is)
    (placed : b.code.size ≤ maxCodeSize →
      ∀ i ∈ is, i.op.isJump → (b.place? (i.operand.getD 0)).isSome)
    (failed : b.finish = .error defect) :
  defect = .codeTooLarge
  := by
  unfold finish at failed
  by_cases large : maxCodeSize < b.code.size
  · rw [if_pos large] at failed
    cases failed
    rfl
  · obtain ⟨code, resolution⟩ := exists_resolve (placed (by omega)) b.code
    rw [if_neg large, decode_eq_of_walk walk] at failed
    simp only [resolution] at failed
    cases failed

/-- Finished code is walked through by the resolved instructions. -/
theorem finish_eq_ok {block : CodeBlock} (walk : Walk b.code 0 b.code.size is)
    (done : b.finish = .ok block) :
  b.code.size ≤ maxCodeSize ∧ block.lines = b.lines ∧ block.code.size = b.code.size
    ∧ Walk block.code 0 block.code.size (is.map b.resolved)
    ∧ ∀ i ∈ is, i.op.isJump → (b.place? (i.operand.getD 0)).isSome
  := by
  unfold finish at done
  by_cases large : maxCodeSize < b.code.size
  · rw [if_pos large] at done
    cases done
  · rw [if_neg large, decode_eq_of_walk walk] at done
    simp only at done
    cases resolution : b.resolve is b.code with
    | error defect =>
      rw [resolution] at done
      cases done
    | ok code =>
      rw [resolution] at done
      cases done
      obtain ⟨size, -, walked, placed⟩ := resolve_eq_ok walk (Nat.le_refl _) resolution
      rw [← size] at walked
      exact ⟨by omega, rfl, size, walked, placed⟩

end CodeBuffer

end Bytecode
