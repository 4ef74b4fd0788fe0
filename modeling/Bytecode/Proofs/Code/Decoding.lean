import Mathlib
import Bytecode.Code.Buffer

/-!
# Decoding what was encoded

`fetch` reads only the bytes of the instruction that it decodes, so an instruction stays decoded
when code is appended or changed elsewhere. `Walk` says which instructions follow each other
between two places; `decode` finds the walk through the whole code. The bytes that
`CodeBuffer.emit` appends decode to the instruction that was emitted, the operand taken modulo
`2 ^ 16`.
-/

namespace Bytecode

variable {code code' : Array UInt8} {is : List Instruction} {pc stop start : Nat} {i : Instruction}

/-- The two-byte number that stands for an operand. -/
def operandWord (value : Int) : UInt16 := (value % 65536).toNat.toUInt16

theorem toNat_operandWord (value : Int) :
  ((operandWord value).toNat : Int) = value % 65536
  := by
  simp only [operandWord, Nat.toUInt16, UInt16.toNat_ofNat']
  omega

/-- A number that fits two bytes stands for itself. -/
theorem toNat_operandWord_natCast {n : Nat} (small : n < 65536) :
  (operandWord n).toNat = n
  := by
  have word := toNat_operandWord n
  omega

theorem joinBytes_split (n : Nat) :
  joinBytes (n / 256).toUInt8 n.toUInt8 = n.toUInt16
  := by
  apply UInt16.toNat_inj.1
  simp only [joinBytes, Nat.toUInt16, Nat.toUInt8, UInt16.toNat_add, UInt16.toNat_mul,
    UInt8.toNat_toUInt16, UInt8.toNat_ofNat', UInt16.toNat_ofNat', UInt16.reduceToNat]
  omega

theorem Op.size_pos (op : Op) :
  0 < op.size
  := by
  unfold Op.size
  omega

theorem Op.isJump_shape? {op : Op} (jump : op.isJump) :
  op.shape? = some .short
  := by
  cases op with
  | jump | jumpIfTrue | jumpIfFalse => rfl
  | _ => cases jump

/-- What it takes for an instruction to be decoded. -/
theorem fetch_eq_ok_iff :
  fetch code pc = .ok i
    ↔ i.pc = pc ∧ Op.ofByte? (byteAt code pc) = some i.op ∧ pc + i.op.size ≤ code.size
      ∧ i.operand = i.op.shape?.map (operandAt code (pc + 1))
  := by
  obtain ⟨place, op, operand⟩ := i
  simp only [fetch]
  rcases Op.ofByte? (byteAt code pc) with _ | op'
  · simp
  · by_cases short : code.size < pc + op'.size
    · simp only [short, ↓reduceIte, reduceCtorEq, Option.some.injEq, false_iff]
      rintro ⟨-, rfl, fits, -⟩
      omega
    · simp only [short, ↓reduceIte, Except.ok.injEq, Instruction.mk.injEq, Option.some.injEq]
      constructor
      · rintro ⟨rfl, rfl, rfl⟩
        exact ⟨rfl, rfl, by omega, rfl⟩
      · rintro ⟨rfl, rfl, -, rfl⟩
        exact ⟨rfl, rfl, rfl⟩

theorem fetch_pc (fetched : fetch code pc = .ok i) :
  i.pc = pc
  := (fetch_eq_ok_iff.1 fetched).1

theorem nextPc_le_size (fetched : fetch code pc = .ok i) :
  i.nextPc ≤ code.size
  := by
  obtain ⟨rfl, -, fits, -⟩ := fetch_eq_ok_iff.1 fetched
  exact fits

theorem lt_nextPc (i : Instruction) :
  i.pc < i.nextPc
  := by
  have positive := i.op.size_pos
  unfold Instruction.nextPc
  omega

theorem byteAt_congr (same : code'[pc]? = code[pc]?) :
  byteAt code' pc = byteAt code pc
  := by
  unfold byteAt
  rw [Array.getD_eq_getD_getElem?, Array.getD_eq_getD_getElem?, same]

/-- An instruction is decoded from its own bytes alone. -/
theorem fetch_congr (fetched : fetch code pc = .ok i) (fits : i.nextPc ≤ code'.size)
    (same : ∀ j, pc ≤ j → j < i.nextPc → code'[j]? = code[j]?) :
  fetch code' pc = .ok i
  := by
  obtain ⟨rfl, opcode, inside, operand⟩ := fetch_eq_ok_iff.1 fetched
  have positive := i.op.size_pos
  apply fetch_eq_ok_iff.2
  refine ⟨rfl, ?_, fits, ?_⟩
  · rw [byteAt_congr (same i.pc (Nat.le_refl _) (lt_nextPc i)), opcode]
  · rw [operand]
    have width : i.op.size = 1 + (i.op.shape?.map Shape.width).getD 0 := rfl
    have next : i.nextPc = i.pc + i.op.size := rfl
    cases shaped : i.op.shape? with
    | none => rfl
    | some shape =>
      rw [shaped] at width
      cases shape with
      | byte =>
        have bytes : i.op.size = 2 := width
        simp only [Option.map_some, operandAt]
        rw [byteAt_congr (same (i.pc + 1) (by omega) (by omega))]
      | short | pool =>
        have bytes : i.op.size = 3 := width
        simp only [Option.map_some, operandAt]
        rw [byteAt_congr (same (i.pc + 1) (by omega) (by omega)),
          byteAt_congr (same (i.pc + 1 + 1) (by omega) (by omega))]

/-! ### Walks -/

/-- The instructions follow each other in the code from one place to another. -/
inductive Walk (code : Array UInt8) : Nat → Nat → List Instruction → Prop
  | nil (pc : Nat) : Walk code pc pc []
  | cons {pc stop : Nat} {i : Instruction} {rest : List Instruction} :
      fetch code pc = .ok i → Walk code i.nextPc stop rest → Walk code pc stop (i :: rest)

theorem Walk.le (walk : Walk code start stop is) :
  start ≤ stop
  := by
  induction walk with
  | nil pc => exact Nat.le_refl _
  | @cons pc stop i rest fetched _ ih =>
    have forward := lt_nextPc i
    rw [fetch_pc fetched] at forward
    omega

theorem Walk.append {middle : Nat} {js : List Instruction} (first : Walk code start middle is)
    (second : Walk code middle stop js) :
  Walk code start stop (is ++ js)
  := by
  induction first with
  | nil pc => exact second
  | cons fetched _ ih => exact .cons fetched (ih second)

/-- The places of the instructions of a walk lie between its ends. -/
theorem Walk.mem_bounds (walk : Walk code start stop is) (listed : i ∈ is) :
  start ≤ i.pc ∧ i.nextPc ≤ stop ∧ fetch code i.pc = .ok i
  := by
  induction walk with
  | nil pc => simp at listed
  | @cons pc stop j rest fetched walk ih =>
    have forward := lt_nextPc j
    have place := fetch_pc fetched
    rcases List.mem_cons.1 listed with rfl | later
    · exact ⟨by omega, walk.le, place ▸ fetched⟩
    · obtain ⟨lower, upper, found⟩ := ih later
      exact ⟨by omega, upper, found⟩

/-- A walk depends only on the bytes between its ends. -/
theorem Walk.congr (walk : Walk code start stop is) (fits : stop ≤ code'.size)
    (same : ∀ j, start ≤ j → j < stop → code'[j]? = code[j]?) :
  Walk code' start stop is
  := by
  induction walk with
  | nil pc => exact .nil pc
  | @cons pc stop i rest fetched walk ih =>
    have forward := lt_nextPc i
    have place := fetch_pc fetched
    have inside := walk.le
    apply Walk.cons
    · apply fetch_congr fetched
      · omega
      · intro j lower upper
        exact same j lower (by omega)
    · apply ih fits
      intro j lower upper
      exact same j (by omega) upper

theorem decodeFrom_eq_of_walk (walk : Walk code start code.size is) {fuel : Nat}
    (enough : code.size - start ≤ fuel) :
  decodeFrom code fuel start = ⟨is, none⟩
  := by
  induction is generalizing start fuel with
  | nil =>
    cases walk
    cases fuel with
    | zero => rfl
    | succ fuel => simp [decodeFrom]
  | cons i rest ih =>
    cases walk with
    | cons fetched walk =>
      have forward := lt_nextPc i
      have place := fetch_pc fetched
      have inside := walk.le
      cases fuel with
      | zero => omega
      | succ fuel =>
        rw [decodeFrom, if_pos (by omega), fetched]
        simp only
        rw [ih walk (by omega)]

/-- Decoding follows the walk through the code. -/
theorem decode_eq_of_walk (walk : Walk code 0 code.size is) :
  decode code = ⟨is, none⟩
  := decodeFrom_eq_of_walk walk (by omega)

/-! ### Encoding -/

/-- The bytes of an operand are as many as its form has, and stand for the operand. -/
theorem Shape.encode?_eq_some {shape : Shape} {value : Int} {bytes : Array UInt8}
    (encoded : shape.encode? value = some bytes) :
  bytes.size = shape.width ∧ -32768 ≤ value ∧ value < 65536
    ∧ ∀ code : Array UInt8, operandAt (code ++ bytes) code.size shape = operandWord value
  := by
  cases shape with
  | byte =>
    simp only [Shape.encode?, Option.ite_none_right_eq_some, Option.some.injEq] at encoded
    obtain ⟨⟨lower, upper⟩, rfl⟩ := encoded
    refine ⟨rfl, by omega, by omega, ?_⟩
    intro code
    apply UInt16.toNat_inj.1
    simp [operandAt, byteAt, operandWord]
    omega
  | short | pool =>
    simp only [Shape.encode?, Option.ite_none_right_eq_some, Option.some.injEq] at encoded
    obtain ⟨⟨lower, upper⟩, rfl⟩ := encoded
    refine ⟨rfl, lower, upper, ?_⟩
    intro code
    simp [operandAt, byteAt, operandWord, Array.getElem_append_right, ← joinBytes_split]

end Bytecode
