import Mathlib
import Bytecode.Proofs.Generate.Program

/-!
# The labels of generated code

The number of a label is its rank in sixteen bits, and nothing checks that the rank fits. It does
in all code that is finished: a construct makes no more labels than its jumps have bytes, and a loop
with nothing in it makes three for the three bytes of its one jump. Hence code has at least as many
bytes as labels, and code that is short enough to be finished has so few that their numbers differ:
`labels_of_bodyCode`.
-/

namespace Bytecode

open CodeBuffer (Requested made jumps ownPlace?)

variable {scope : Scope} {function : Option FunctionDecl} {body : Block} {pool : ConstantPool}
  {d : Draft}

/-- Append the code of a body, of a function or of the top level. -/
def Gen.bodyCode (scope : Scope) : Option FunctionDecl → Block → Gen Unit
  | some f, body => functionCode scope f body
  | none, body => stmts scope body

/-- Generate a body, of a function or of the top level. -/
def Gen.bodyBlock (scope : Scope) : Option FunctionDecl → Block → Gen CodeBlock
  | some f, body => functionBody scope f body
  | none, body => topLevel scope body

/-- A body is generated by appending its code and finishing it. -/
theorem Gen.bodyBlock_of_bodyCode (run : bodyCode scope function body ⟨pool, { function }⟩ = .ok () d)
    (before : Body) :
  bodyBlock scope function body ⟨pool, before⟩
    = ofExcept (d.body.finish ((function.map FunctionDecl.position).getD {})) d
  := by
  cases function with
  | some f =>
    rw [bodyBlock, functionBody_eq]
    exact bind_of_ok run _
  | none => exact bind_of_ok run _

/-- The code of a body is that of some piece which no jump leaves. -/
theorem emits_bodyCode (run : Gen.bodyCode scope function body ⟨pool, { function }⟩ = .ok () d) :
  ∃ q stop, Piece.Typed (fun _ => none) 0 q stop ∧ Emits noLabels q ⟨pool, { function }⟩ d
  := by
  cases function with
  | some f => exact ⟨f.piece body, _, f.typed_piece body, emits_functionCode run⟩
  | none =>
    let p : Program := { statements := body }
    exact ⟨p.piece none, _, p.typed_topLevel, emits_topLevel run⟩

/-- However the code of a body came about, it has at least as many bytes as labels were requested for
it. Unless it is too long it can be finished, and then no number was used for two labels: every label
has its rank as its number, and each jump leads to where its own label was bound. -/
theorem labels_of_bodyCode
    (run : Gen.bodyCode scope function body ⟨pool, { function }⟩ = .ok () d) :
  (∃ requests, Requested requests d.body.buffer)
    ∧ (d.body.buffer.size ≤ 65535 → ∃ block, d.body.buffer.finish = .ok block)
    ∧ ∀ requests, Requested requests d.body.buffer →
      (made requests).length ≤ d.body.buffer.size
      ∧ ∀ block, d.body.buffer.finish = .ok block →
        (∀ (rank : Nat) (label : Label),
          (made requests)[rank]? = some label → label.number.toNat = rank)
        ∧ ((made requests).map Label.number).Nodup
        ∧ ((decode block.code).instructions.filter (·.op.isJump)).map
            (fun i => (i.pc, i.op, i.operand.map UInt16.toNat))
          = (jumps requests).map fun (pc, op, rank) => (pc, op, ownPlace? requests rank)
  := by
  obtain ⟨q, stop, typed, emitted⟩ := emits_bodyCode run
  obtain ⟨requests, requested⟩ := emitted.proceeds [] .new
  refine ⟨⟨_, requested⟩, ?_, ?_⟩
  · intro small
    have outcome := requested.written.follows.finish_eq small
    split at outcome
    · cases emitted.finish_eq_error rfl rfl typed outcome
    · exact outcome
  · intro requests requested
    have fewer : (made requests).length ≤ d.body.buffer.size := by
      rw [requested.length_made]
      exact emitted.labels_le_size rfl rfl
    refine ⟨fewer, ?_⟩
    intro block finished
    have small := (CodeBuffer.finish_eq_ok requested.written.follows.walk finished).1
    have few : (made requests).length ≤ 65536 := by
      unfold maxCodeSize at small
      exact Nat.le_trans fewer (Nat.le_trans small (by decide))
    exact ⟨fun rank label found => requested.toNat_number few found, requested.nodup_made few,
      requested.jumps_finished few finished⟩

/-- A loop that is left or taken up again from a branch in it. -/
def patrol : Block :=
  [.loop {} none
    (some (.binary ⟨.boolean, {}⟩ .and (.readGlobal 0 .boolean) (.readGlobal 1 .boolean))) none
    [.branch {} (.readGlobal 0 .boolean) [.break_ {}]
      [.mk (.readGlobal 1 .boolean) [.continue_ {}]] (some [])]]

def patrolBuffer : CodeBuffer :=
  ⟨#[14, 0, 0, 72, 75, 0, 3, 71, 14, 0, 1, 75, 0, 1, 14, 0, 0, 75, 0, 5, 73, 0, 1, 73, 0, 4, 14, 0,
      1, 75, 0, 6, 73, 0, 2, 73, 0, 4, 73, 0, 0],
    #[some 0, some 41, some 38, some 11, some 38, some 26, some 38], #[⟨0, 0, 41⟩]⟩

def patrolBlock : CodeBlock :=
  ⟨#[14, 0, 0, 72, 75, 0, 11, 71, 14, 0, 1, 75, 0, 41, 14, 0, 0, 75, 0, 26, 73, 0, 41, 73, 0, 38,
      14, 0, 1, 75, 0, 38, 73, 0, 38, 73, 0, 38, 73, 0, 0], #[⟨0, 0, 41⟩]⟩

/-- Seven labels in 41 bytes. Three of them are bound to one place, and stay apart. -/
theorem labels_patrol :
  Gen.bodyBlock ⟨0, #[]⟩ none patrol {} = .ok patrolBlock ⟨{}, { buffer := patrolBuffer }⟩
    ∧ ∃ requests, Requested requests patrolBuffer ∧ (made requests).length = 7
      ∧ ((made requests).map Label.number).Nodup
      ∧ ((jumps requests).map fun (pc, op, rank) => (pc, op, ownPlace? requests rank))
        = [(4, .jumpIfFalse, some 11), (11, .jumpIfFalse, some 41), (17, .jumpIfFalse, some 26),
          (20, .jump, some 41), (23, .jump, some 38), (29, .jumpIfFalse, some 38),
          (32, .jump, some 38), (35, .jump, some 38), (38, .jump, some 0)]
  := by
  have run : Gen.bodyCode ⟨0, #[]⟩ none patrol {} = .ok () ⟨{}, { buffer := patrolBuffer }⟩ := by
    cbv
  have finished : patrolBuffer.finish = .ok patrolBlock := by cbv
  have done := Gen.bodyBlock_of_bodyCode run {}
  rw [Body.finish, finished] at done
  obtain ⟨⟨requests, requested⟩, -, each⟩ := labels_of_bodyCode run
  obtain ⟨-, distinct, resolved⟩ := (each requests requested).2 patrolBlock finished
  refine ⟨done, requests, requested, requested.length_made, distinct, ?_⟩
  rw [← resolved]
  cbv

end Bytecode
