import Mathlib
import Bytecode.Proofs.Code.History
import Bytecode.Proofs.Code.LineTable

/-!
# The lines of a code buffer

Instructions and jumps are appended to a buffer with arbitrary lines, and labels are made and bound
between them. `Lined` lists the bytes of each instruction with the line it was appended with, as one
run for each instruction. The line table of the buffer joins these runs as far as it can: it gives
every byte the line of its instruction, and no two neighbouring runs of it have the same line.
-/

namespace Bytecode

/-- Neighbouring runs have different lines. -/
def Alternates (runs : List LineRun) : Prop := runs.IsChain fun run next => run.line ≠ next.line

theorem alternates_addLine {runs : Array LineRun} (alternates : Alternates runs.toList)
    (line : UInt32) (start count : Nat) :
  Alternates (addLine runs line start count).toList
  := by
  unfold addLine
  rcases back : runs.back? with _ | last
  · obtain rfl := Array.back?_eq_none_iff.1 back
    exact List.isChain_singleton _
  · obtain ⟨init, rfl⟩ := Array.back?_eq_some_iff.1 back
    rw [Array.toList_push] at alternates
    by_cases same : last.line = line
    · -- The run that takes the place of the last one has its line.
      obtain ⟨first, -, joint⟩ := List.isChain_append.1 alternates
      simp only [same, if_true, Array.pop_push, Array.toList_push]
      exact List.isChain_append.2 ⟨first, List.isChain_singleton _, by simpa [same] using joint⟩
    · simp only [same, if_false, Array.toList_push]
      exact List.isChain_append.2 ⟨alternates, List.isChain_singleton _, by simpa using same⟩

/-- A place outside the code has no line. -/
theorem Tiles.lineAt_eq_none {runs : Array LineRun} {start stop pc : Nat}
    (tiles : Tiles runs.toList start stop) (outside : pc < start ∨ stop ≤ pc) :
  lineAt runs pc = none
  := by
  rw [lineAt_eq_find?, Option.map_eq_none_iff, List.find?_eq_none]
  intro run listed
  exact tiles.not_covers outside listed

namespace CodeBuffer

/-- The buffer is the result of requests that all succeeded. The runs are the bytes that each
instruction has added, with its line, in the order of the requests. -/
inductive Lined : List LineRun → CodeBuffer → Prop
  | new : Lined [] {}
  | emit {runs : List LineRun} {b b' : CodeBuffer} {line : UInt32} {op : Op} {operands : List Int}
      {pc : Nat} : Lined runs b → emit line op operands b = .ok pc b' →
      Lined (runs ++ [⟨line, pc, b'.size - b.size⟩]) b'
  | emitJump {runs : List LineRun} {b b' : CodeBuffer} {line : UInt32} {op : Op} {label : Label}
      {pc : Nat} : Lined runs b → emitJump line op label b = .ok pc b' →
      Lined (runs ++ [⟨line, pc, b'.size - b.size⟩]) b'
  | newLabel {runs : List LineRun} {b : CodeBuffer} : Lined runs b → Lined runs b.newLabel.2
  | setLabel {runs : List LineRun} {b : CodeBuffer} (label : Label) : Lined runs b →
      Lined runs (b.setLabel label)

/-- An instruction adds at least its opcode, and as many bytes to the line table as to the code. -/
theorem emit_lines {line : UInt32} {op : Op} {operands : List Int} {b b' : CodeBuffer} {pc : Nat}
    (emitted : emit line op operands b = .ok pc b') :
  b.size < b'.size ∧ b'.lines = addLine b.lines line b.size (b'.size - b.size)
  := by
  unfold emit at emitted
  split at emitted
  · split at emitted
    · cases emitted
    · next bytes _ =>
        cases emitted
        have added : b.code.size + 1 + bytes.size - b.code.size = 1 + bytes.size := by omega
        simp only [size, Array.size_append, Array.size_push, added, and_true]
        omega
  · cases emitted
    have added : b.code.size + 1 - b.code.size = 1 := by omega
    simp only [size, Array.size_push, added, and_true]
    omega

/-- Both the line table and the runs of the single instructions tile the code, and the table gives
every byte the line of its instruction. -/
structure Lines (runs : List LineRun) (b : CodeBuffer) : Prop where
  tiles : Tiles b.lines.toList 0 b.size
  alternates : Alternates b.lines.toList
  instructions : Tiles runs 0 b.size
  lineAt_eq : ∀ run ∈ runs, ∀ pc, run.covers pc → lineAt b.lines pc = some run.line

theorem Lines.emit {runs : List LineRun} {b b' : CodeBuffer} {line : UInt32} {op : Op}
    {operands : List Int} {pc : Nat} (lines : Lines runs b)
    (emitted : emit line op operands b = .ok pc b') :
  Lines (runs ++ [⟨line, pc, b'.size - b.size⟩]) b'
  := by
  obtain ⟨longer, table⟩ := emit_lines emitted
  obtain rfl : pc = b.size := emit_pc emitted
  have total : b.size + (b'.size - b.size) = b'.size := by omega
  constructor
  case tiles =>
    rw [table, ← total, Nat.add_sub_cancel_left]
    exact tiles_addLine lines.tiles (by omega) line
  case alternates =>
    rw [table]
    exact alternates_addLine lines.alternates line _ _
  case instructions =>
    apply tiles_append.2
    exact ⟨b.size, lines.instructions, rfl, by simp only; omega, total⟩
  case lineAt_eq =>
    intro run listed pc covers
    rw [table, lineAt_addLine lines.tiles]
    rcases List.mem_append.1 listed with old | new
    · -- The bytes of an earlier instruction end before those that were added.
      have before : pc < b.size := by
        by_contra outside
        exact lines.instructions.not_covers (.inr (Nat.not_lt.1 outside)) old covers
      rw [if_neg (by omega)]
      exact lines.lineAt_eq run old pc covers
    · obtain rfl := List.mem_singleton.1 new
      rw [if_pos ((LineRun.covers_iff _ _).1 covers)]

theorem Lined.lines {runs : List LineRun} {b : CodeBuffer} (lined : Lined runs b) :
  Lines runs b
  := by
  induction lined with
  | new => exact ⟨rfl, List.isChain_nil, rfl, by simp⟩
  | emit _ emitted ih | emitJump _ emitted ih => exact ih.emit emitted
  | newLabel _ ih | setLabel label _ ih =>
    exact ⟨ih.tiles, ih.alternates, ih.instructions, ih.lineAt_eq⟩

theorem lines_of_finish {b : CodeBuffer} {block : CodeBlock} (finished : b.finish = .ok block) :
  block.lines = b.lines
  := by
  unfold finish at finished
  split at finished
  · cases finished
  · simp only at finished
    split at finished
    all_goals cases finished
    rfl

/-- The line table of a buffer that was written by successful requests: its runs are not empty,
follow each other from the start of the code to its end, and neighbours have different lines. Every
byte has the line with which the instruction that contains it was appended, there is no line beyond
the code, and finished code has the same table. -/
theorem lineTable_of_lined {runs : List LineRun} {b : CodeBuffer} (lined : Lined runs b) :
  Tiles b.lines.toList 0 b.size ∧ Alternates b.lines.toList
    ∧ Tiles runs 0 b.size
    ∧ (∀ pc, pc < b.size →
      ∃ run ∈ runs, run.covers pc ∧ lineAt b.lines pc = some run.line)
    ∧ (∀ pc, b.size ≤ pc → lineAt b.lines pc = none)
    ∧ (b.size < 2 ^ 64 → ∀ pc, tryLineAt b.lines pc = some (lineAt b.lines pc))
    ∧ (∀ block, b.finish = .ok block → block.lines = b.lines)
  := by
  have lines := lined.lines
  refine ⟨lines.tiles, lines.alternates, lines.instructions, ?_, ?_, ?_, ?_⟩
  · intro pc inside
    obtain ⟨run, listed, covers⟩ := lines.instructions.exists_covers (Nat.zero_le pc) inside
    exact ⟨run, listed, covers, lines.lineAt_eq run listed pc covers⟩
  · intro pc outside
    exact lines.tiles.lineAt_eq_none (.inr outside)
  · intro small pc
    exact if_pos (lines.tiles.lookupFits small)
  · intro block finished
    exact lines_of_finish finished

/-- Three instructions of one line, one of another and a jump on the first line again: the first
three share a run, the jump does not, and the label that is bound in between leaves no trace. -/
theorem lineTable_returning :
  ∃ runs b, Lined runs b
    ∧ runs = [⟨3, 0, 2⟩, ⟨3, 2, 2⟩, ⟨3, 4, 1⟩, ⟨4, 5, 1⟩, ⟨3, 6, 3⟩]
    ∧ b.lines = #[⟨3, 0, 5⟩, ⟨4, 5, 1⟩, ⟨3, 6, 3⟩] ∧ b.size = 9
    ∧ Tiles b.lines.toList 0 b.size ∧ Alternates b.lines.toList
    ∧ (∃ run ∈ runs, run.covers 8 ∧ lineAt b.lines 8 = some run.line)
    ∧ lineAt b.lines 9 = none
    ∧ (∃ block, b.finish = .ok block ∧ block.lines = b.lines)
  := by
  have one : emit 3 .pushInt1Byte [1] ⟨#[], #[none], #[]⟩
      = .ok 0 ⟨#[0, 1], #[none], #[⟨3, 0, 2⟩]⟩ := by cbv
  have two : emit 3 .pushInt1Byte [2] ⟨#[0, 1], #[none], #[⟨3, 0, 2⟩]⟩
      = .ok 2 ⟨#[0, 1, 0, 2], #[none], #[⟨3, 0, 4⟩]⟩ := by cbv
  have sum : emit 3 (.arithInt .add) [] ⟨#[0, 1, 0, 2], #[some 4], #[⟨3, 0, 4⟩]⟩
      = .ok 4 ⟨#[0, 1, 0, 2, 32], #[some 4], #[⟨3, 0, 5⟩]⟩ := by cbv
  have dropped : emit 4 .pop [] ⟨#[0, 1, 0, 2, 32], #[some 4], #[⟨3, 0, 5⟩]⟩
      = .ok 5 ⟨#[0, 1, 0, 2, 32, 71], #[some 4], #[⟨3, 0, 5⟩, ⟨4, 5, 1⟩]⟩ := by cbv
  have back : emitJump 3 .jump ⟨0⟩
        ⟨#[0, 1, 0, 2, 32, 71], #[some 4], #[⟨3, 0, 5⟩, ⟨4, 5, 1⟩]⟩
      = .ok 6 ⟨#[0, 1, 0, 2, 32, 71, 73, 0, 0], #[some 4],
        #[⟨3, 0, 5⟩, ⟨4, 5, 1⟩, ⟨3, 6, 3⟩]⟩ := by cbv
  have operands := (Lined.new.newLabel.emit one).emit two
  have lined := (((operands.setLabel ⟨0⟩).emit sum).emit dropped).emitJump back
  obtain ⟨tiles, alternates, -, inside, outside, -, kept⟩ := lineTable_of_lined lined
  obtain ⟨block, finished⟩ : ∃ block, CodeBuffer.finish ⟨#[0, 1, 0, 2, 32, 71, 73, 0, 0],
      #[some 4], #[⟨3, 0, 5⟩, ⟨4, 5, 1⟩, ⟨3, 6, 3⟩]⟩ = .ok block := ⟨_, by cbv⟩
  exact ⟨_, _, lined, rfl, rfl, rfl, tiles, alternates, inside 8 (by decide),
    outside 9 (by decide), block, finished, kept block finished⟩

end CodeBuffer

end Bytecode
