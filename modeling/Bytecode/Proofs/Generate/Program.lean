import Mathlib
import Bytecode.Proofs.Generate.Stmt

/-!
# The code of a compiled program

The code of every function and of the top level decodes to the instructions planned for it, one
for one: `compile_encodes`. Compilation keeps everything else about functions.
-/

namespace Bytecode

variable {p : Program} {scope : Scope} {d d' fin : Draft} {block : CodeBlock} {f : FunctionDecl}
  {exe : Executable}

open List (Forall₂)

/-- A block of code consists of the instructions of a piece. -/
structure CodeBlock.Encodes (constants : Array Constant) (q : Piece) (block : CodeBlock) : Prop
    where
  size_eq : block.code.size = q.size
  size_le : block.code.size ≤ maxCodeSize
  tiles : Tiles block.lines.toList 0 block.code.size
  walk : ∃ is, Walk block.code 0 block.code.size is
    ∧ Forall₂ (Point.Encodes constants block.lines) (q.points (fun _ => 0) 0 0) is

/-- What corresponds to a member of the second of two lists is the member of the first with the
same index. -/
theorem exists_of_forall₂_getElem? {α β : Type} {r : α → β → Prop} {as : List α} {bs : List β}
    (related : Forall₂ r as bs) {i : Nat} {b : β} (found : bs[i]? = some b) :
  ∃ a, as[i]? = some a ∧ r a b
  := by
  induction related generalizing i with
  | nil => simp at found
  | cons first _ ih =>
    cases i with
    | zero =>
      cases found
      exact ⟨_, rfl, first⟩
    | succ i => exact ih found

namespace CodeBlock.Encodes

variable {constants : Array Constant} {q : Piece} {block : CodeBlock} {p : Point}

/-- A planned instruction is the one of the same number that the code decodes to. -/
theorem exists_getElem?_decoded (encodes : block.Encodes constants q) {k : Nat}
    (found : (q.points (fun _ => 0) 0 0)[k]? = some p) :
  ∃ i, (decode block.code).instructions[k]? = some i ∧ p.Encodes constants block.lines i
    ∧ fetch block.code i.pc = .ok i
  := by
  obtain ⟨is, walk, related⟩ := encodes.walk
  obtain ⟨i, found', encoded⟩ := exists_of_forall₂_getElem? related.flip found
  have decoded := List.mem_of_getElem? found'
  rw [decode_eq_of_walk walk]
  exact ⟨i, found', encoded, (walk.mem_bounds decoded).2.2⟩

/-- A planned instruction is among those that the code decodes to. -/
theorem exists_decoded (encodes : block.Encodes constants q)
    (listed : p ∈ q.points (fun _ => 0) 0 0) :
  ∃ i ∈ (decode block.code).instructions, p.Encodes constants block.lines i
    ∧ fetch block.code i.pc = .ok i
  := by
  obtain ⟨k, found⟩ := List.mem_iff_getElem?.1 listed
  obtain ⟨i, decoded, encoded, fetched⟩ := encodes.exists_getElem?_decoded found
  exact ⟨i, List.mem_of_getElem? decoded, encoded, fetched⟩

/-- What the machine fetches at the place of a planned instruction. -/
theorem fetch_eq_ok (encodes : block.Encodes constants q)
    (listed : p ∈ q.points (fun _ => 0) 0 0) :
  ∃ operand, fetch block.code p.pc = .ok ⟨p.pc, p.op, operand⟩
    ∧ p.operand.Denotes constants operand ∧ lineAt block.lines p.pc = some p.line
  := by
  obtain ⟨i, -, ⟨pc, op, denotes, line⟩, fetched⟩ := encodes.exists_decoded listed
  refine ⟨i.operand, ?_, denotes, line⟩
  rw [← pc, fetched, ← op]

end CodeBlock.Encodes

/-- An instruction that was drafted is encoded when the labels are resolved. -/
theorem Point.Drafted.encodes {unset : Nat} {p : Point} {i : Instruction}
    (drafted : p.Drafted fin unset i) (sound : fin.Sound) (small : fin.code.size ≤ maxCodeSize)
    (placed : i.op.isJump → (fin.body.buffer.place? (i.operand.getD 0)).isSome) :
  p.Encodes fin.constants fin.lines (fin.body.buffer.resolved i)
  := by
  obtain ⟨pc, op, line, operand⟩ := drafted
  refine ⟨by rw [CodeBuffer.resolved_pc, pc], by rw [CodeBuffer.resolved_op, op], ?_, line⟩
  unfold CodeBuffer.resolved
  rw [op]
  rw [op] at placed
  by_cases jump : p.op.isJump
  · rw [if_pos jump] at operand ⊢
    obtain ⟨number, encoded, planned⟩ := operand
    obtain ⟨place, found⟩ := Option.isSome_iff_exists.1 (placed jump)
    rw [encoded, Option.getD_some] at found
    have target : fin.place unset ⟨number⟩ = place := by simp [Draft.place, found]
    have inside : place ≤ fin.code.size := by
      apply sound.placed number.toNat place
      exact Option.join_eq_some_iff.1 found
    rw [planned, target, encoded, Option.getD_some, found]
    unfold maxCodeSize at small
    refine ⟨?_, by omega, by omega⟩
    have word : operandWord (place : Int) = place.toUInt16 := by
      apply UInt16.toNat_inj.1
      rw [toNat_operandWord_natCast (by omega), toNat_toUInt16 (by omega)]
    simp [word]
  · rw [if_neg jump] at operand ⊢
    exact operand

/-- Lists that correspond do so also in a way that holds of the members of the second. -/
theorem forall₂_of_mem {α β : Type} {r r' : α → β → Prop} {as : List α} {bs : List β}
    (related : Forall₂ r as bs) (imp : ∀ a, ∀ b ∈ bs, r a b → r' a b) :
  Forall₂ r' as bs
  := by
  induction related with
  | nil => exact .nil
  | cons first _ ih =>
    apply Forall₂.cons
    · exact imp _ _ List.mem_cons_self first
    · exact ih fun a b listed => imp a b (List.mem_cons_of_mem _ listed)

/-- A finished body completes itself, whatever constants are added to it. -/
theorem Draft.completes_of_constants {constants : Array Constant} (few : fin.labels.size ≤ 65536)
    (more : ∃ more, constants = fin.constants ++ more) :
  fin.Completes ⟨⟨constants⟩, fin.body⟩
  := ⟨⟨#[], by simp [Draft.code]⟩, more, fun _ _ found => found, fun _ _ => rfl, Nat.le_refl _,
    few⟩

theorem Draft.completes_self (few : fin.labels.size ≤ 65536) :
  fin.Completes fin
  := completes_of_constants few ⟨#[], by simp [constants]⟩

/-- Constants that are extended twice are extended. -/
theorem extends_trans {a b c : Array Constant} (first : ∃ more, b = a ++ more)
    (second : ∃ more, c = b ++ more) :
  ∃ more, c = a ++ more
  := by
  obtain ⟨more, rfl⟩ := first
  obtain ⟨more', rfl⟩ := second
  exact ⟨more ++ more', Array.append_assoc ..⟩

/-- Constants have been appended. If they were distinct, they still are. -/
structure ConstantPool.Grows (p p' : ConstantPool) : Prop where
  extended : ∃ more, p'.constants = p.constants ++ more
  distinct : p.constants.toList.Nodup → p'.constants.toList.Nodup

theorem ConstantPool.Grows.refl (p : ConstantPool) :
  p.Grows p
  := ⟨⟨#[], by simp⟩, id⟩

theorem ConstantPool.Grows.trans {p₁ p₂ p₃ : ConstantPool} (first : p₁.Grows p₂)
    (second : p₂.Grows p₃) :
  p₁.Grows p₃
  := ⟨extends_trans first.extended second.extended,
    fun nodup => second.distinct (first.distinct nodup)⟩

section Emits

variable {labels : Aim → Label} {q : Piece} {stop : Option Nat} {d fin : Draft}

section

variable (e : Emits labels q d fin) (empty : d.code = #[])
include e empty

/-- A body that was generated from nothing has no more labels than bytes. -/
theorem Emission.labels_le_size (unlabelled : d.labels = #[]) :
  fin.labels.size ≤ fin.code.size
  := by
  have size := e.size
  have bound := e.labels_ge
  have budget := q.jumpSize_le_size
  rw [empty, Array.size_empty] at size
  rw [unlabelled, Array.size_empty] at bound
  omega

/-- Code that is not too long has few enough labels to tell them apart. -/
theorem Emission.few (unlabelled : d.labels = #[]) (small : fin.code.size ≤ maxCodeSize) :
  fin.labels.size ≤ 65536
  := Nat.le_trans (e.labels_le_size empty unlabelled) (Nat.le_trans small (by decide))

/-- A body that was generated from nothing consists of the instructions planned, whatever place
labels are read as that have none. -/
theorem Emission.drafted (typed : Piece.Typed (fun _ => none) 0 q stop) :
  ∃ is, Walk fin.code 0 fin.code.size is ∧
    ∀ final unset, fin.Completes final →
      Forall₂ (Point.Drafted final unset) (q.points (fun _ => 0) 0 0) is
  := by
  obtain ⟨is, walk, drafted⟩ := e.written
  rw [empty, Array.size_empty] at walk
  refine ⟨is, walk, ?_⟩
  intro final unset completes
  have planned := drafted final unset 0 completes
  rw [empty, Array.size_empty] at planned
  have closed : q.points (fun _ => 0) 0 0
      = q.points (fun aim => final.place unset (labels aim)) 0 0 :=
    typed.points_congr (fun _ placed => by cases placed) 0 0
  rwa [closed]

/-- The labels of all jumps of a body have places: the plan does not depend on what other labels
are read as. -/
theorem Emission.isSome_place? (unlabelled : d.labels = #[])
    (typed : Piece.Typed (fun _ => none) 0 q stop) :
  ∃ is, Walk fin.code 0 fin.code.size is ∧ (fin.code.size ≤ maxCodeSize →
    ∀ i ∈ is, i.op.isJump → (fin.body.buffer.place? (i.operand.getD 0)).isSome)
  := by
  obtain ⟨is, walk, drafted⟩ := e.drafted empty typed
  refine ⟨is, walk, ?_⟩
  intro small i listed jump
  have completes := Draft.completes_self (e.few empty unlabelled small)
  obtain ⟨index, found⟩ := List.mem_iff_getElem?.1 listed
  obtain ⟨p, planned, -, op, -, operand⟩ :=
    exists_of_forall₂_getElem? (drafted fin 0 completes) found
  obtain ⟨p', planned', -, -, -, operand'⟩ :=
    exists_of_forall₂_getElem? (drafted fin 1 completes) found
  obtain rfl : p = p' := Option.some.inj (planned.symm.trans planned')
  rw [← op, if_pos jump] at operand operand'
  obtain ⟨number, named, target⟩ := operand
  obtain ⟨number', named', target'⟩ := operand'
  obtain rfl : number = number' := Option.some.inj (named.symm.trans named')
  rw [named, Option.getD_some]
  by_contra unset
  rw [Option.not_isSome_iff_eq_none] at unset
  simp [target, Draft.place, unset] at target'

/-- A body that was generated from nothing is finished unless it is too long. -/
theorem Emission.finish_eq_error (unlabelled : d.labels = #[])
    (typed : Piece.Typed (fun _ => none) 0 q stop) {defect : Defect}
    (failed : fin.body.buffer.finish = .error defect) :
  defect = .codeTooLarge
  := by
  obtain ⟨is, walk, placed⟩ := e.isSome_place? empty unlabelled typed
  exact CodeBuffer.finish_eq_error walk placed failed

/-- A body that was generated from nothing and finished consists of the instructions planned. -/
theorem Emission.encodes {block : CodeBlock} {constants : Array Constant}
    (unlabelled : d.labels = #[]) (typed : Piece.Typed (fun _ => none) 0 q stop)
    (done : fin.body.buffer.finish = .ok block) (more : ∃ more, constants = fin.constants ++ more) :
  block.Encodes constants q
  := by
  obtain ⟨is, walk, drafted⟩ := e.drafted empty typed
  obtain ⟨small, lines, sameSize, walked, placed⟩ := CodeBuffer.finish_eq_ok walk done
  have completes := Draft.completes_of_constants (e.few empty unlabelled small) more
  refine ⟨?_, by rw [sameSize]; exact small, ?_, is.map fin.body.buffer.resolved, walked, ?_⟩
  · have size := e.size
    rw [empty] at size
    rw [sameSize]
    exact size.trans (Nat.zero_add _)
  · rw [lines, sameSize]
    exact e.sound.tiles
  · have sound : Draft.Sound ⟨⟨constants⟩, fin.body⟩ := ⟨e.sound.tiles, e.sound.placed⟩
    rw [List.forall₂_map_right_iff, lines]
    apply forall₂_of_mem (drafted _ 0 completes)
    intro p i listed drafted
    exact drafted.encodes sound small (placed i listed)

/-- A body that was finished has added its constants to those before it. -/
theorem Emission.grows {block : CodeBlock} (unlabelled : d.labels = #[])
    (done : fin.body.buffer.finish = .ok block) :
  d.pool.Grows fin.pool
  := by
  obtain ⟨is, walk, -⟩ := e.written
  rw [empty, Array.size_empty] at walk
  have small := (CodeBuffer.finish_eq_ok walk done).1
  have itself := Draft.completes_self (e.few empty unlabelled small)
  exact ⟨(e.completes fin itself).constants, e.distinct⟩

end

end Emits

/-! ### Bodies -/

theorem Body.finish_eq_ok {b : Body} {position : Position} (done : b.finish position = .ok block) :
  b.buffer.finish = .ok block
  := by
  unfold Body.finish at done
  cases finished : b.buffer.finish with
  | error defect =>
    rw [finished] at done
    cases done
  | ok block' =>
    rw [finished] at done
    cases done
    rfl

/-- A body is at the start of its code when its generation begins. -/
theorem Draft.isAt_start (pool : ConstantPool) (function : Option FunctionDecl) :
  Draft.IsAt ⟨(function.map (·.params.length)).getD 0,
    (function.map (·.returnType)).getD .void, 0⟩ ⟨pool, { function }⟩
  where
  sound := ⟨rfl, by simp [Draft.labels]⟩
  site_eq := rfl

/-- The labels that jumps out of a body would go to. There are no such jumps. -/
def noLabels : Aim → Label := fun _ => ⟨0⟩

/-- There is no loop around a body. -/
theorem Draft.loopLabels_start (pool : ConstantPool) (function : Option FunctionDecl) :
  Draft.LoopLabels noLabels false ⟨pool, { function }⟩
  := ⟨rfl, by simp⟩

/-- The part of `functionBody` that appends code. -/
def Gen.functionCode (scope : Scope) (f : FunctionDecl) (body : Block) : Gen Unit := do
  inBlock .plain (stmts scope body)
  if ¬(body.getLast?.map Stmt.isReturn).getD false then
    emitDefault f.position f.returnType
    emit f.position .ret []

theorem Gen.functionBody_eq (scope : Scope) (f : FunctionDecl) (body : Block) :
  functionBody scope f body = (do
    modify fun draft => { draft with body := { function := some f } }
    functionCode scope f body
    ofExcept ((← getBody).finish f.position))
  := by
  unfold functionBody functionCode
  split
  · simp only [bind_assoc]
  · simp only [bind_assoc, pure_bind]

theorem emits_functionCode {body : Block} {pool : ConstantPool}
    (run : Gen.functionCode scope f body ⟨pool, { function := some f }⟩ = .ok () d) :
  Emits noLabels (f.piece body) ⟨pool, { function := some f }⟩ d
  := by
  obtain ⟨_, d₁, run₁, rest₁⟩ := bind_eq_ok.1 run
  have here : Draft.IsAt f.site ⟨pool, { function := some f }⟩ :=
    Draft.isAt_start pool (some f)
  have statements := (emits_stmts scope f.site false noLabels body).plain here
    (Draft.loopLabels_start pool (some f)) run₁
  unfold FunctionDecl.piece
  split at rest₁
  · next open_ =>
      rw [if_neg open_]
      obtain ⟨_, d₂, run₂, run₃⟩ := bind_eq_ok.1 rest₁
      have here₁ := statements.isAt here
      have pushed : Emits noLabels (f.site.one f.position (.default f.site.returns)) d₁ d₂ :=
        writes_default here₁ run₂
      have returned : Emits noLabels (returnPiece f.site f.position none) d₁ d :=
        pushed.seq_none here₁ run₃ rfl rfl (.inr (by simp [statements.function]))
      exact statements.seq returned
  · next closed =>
      rw [if_pos (by simpa using closed)]
      obtain ⟨-, rfl⟩ := pure_eq_ok.1 rest₁
      exact statements.seq (.refl noLabels statements.sound)

theorem emits_topLevel {pool : ConstantPool}
    (run : Gen.stmts scope p.statements ⟨pool, {}⟩ = .ok () d) :
  Emits noLabels (p.piece none) ⟨pool, {}⟩ d
  := emits_stmts scope _ false noLabels p.statements (Draft.isAt_start pool none)
    (Draft.loopLabels_start pool none) run

/-- A block is what has been appended to an empty body and then finished. -/
theorem Gen.finished_eq_ok {code : Gen Unit} {start : Body} {position : Position}
    (run : (do
      modify fun draft => { draft with body := start }
      code
      ofExcept ((← getBody).finish position) : Gen CodeBlock) d = .ok block d') :
  code ⟨d.pool, start⟩ = .ok () d' ∧ d'.body.buffer.finish = .ok block
  := by
  obtain ⟨_, d₁, run₁, rest₁⟩ := bind_eq_ok.1 run
  cases run₁
  obtain ⟨_, d₂, run₂, rest₂⟩ := bind_eq_ok.1 rest₁
  obtain ⟨b, d₃, run₃, rest₃⟩ := bind_eq_ok.1 rest₂
  obtain ⟨rfl, rfl⟩ := Gen.getBody_eq_ok run₃
  obtain ⟨done, rfl⟩ := Gen.ofExcept_eq_ok rest₃
  exact ⟨run₂, Body.finish_eq_ok done⟩

/-- The code of a function is the one planned. -/
theorem functionBody_eq_ok {body : Block} (run : Gen.functionBody scope f body d = .ok block d') :
  d.pool.Grows d'.pool ∧ ∀ constants, (∃ more, constants = d'.constants ++ more) →
      block.Encodes constants (f.piece body)
  := by
  rw [Gen.functionBody_eq] at run
  obtain ⟨appended, done⟩ := Gen.finished_eq_ok run
  have emitted := emits_functionCode appended
  exact ⟨emitted.grows rfl rfl done,
    fun constants more => emitted.encodes rfl rfl (f.typed_piece body) done more⟩

/-- The code of the top level is the one planned. -/
theorem topLevel_eq_ok (run : Gen.topLevel scope p.statements d = .ok block d') :
  d.pool.Grows d'.pool ∧ block.Encodes d'.constants (p.piece none)
    ∧ (p.piece none).Every (fun i => i.op.isFramed = false)
  := by
  obtain ⟨appended, done⟩ := Gen.finished_eq_ok run
  have emitted := emits_topLevel appended
  exact ⟨emitted.grows rfl rfl done,
    emitted.encodes rfl rfl p.typed_topLevel done ⟨#[], by simp⟩, emitted.frameless rfl⟩

/-! ### Functions -/

/-- A function of an executable has been compiled from a declaration. -/
structure Function.CompiledFrom (constants : Array Constant) (f : FunctionDecl) (g : Function) :
    Prop where
  name : g.name = f.name
  package : g.package = f.package
  returnType : g.returnType = f.returnType
  params : g.params = f.params
  locals : g.locals = f.locals
  native : f.body = none → g.code = none
  code : ∀ body, f.body = some body → ∃ block, g.code = some block
    ∧ block.Encodes constants (f.piece body)

theorem function_eq_ok {g : Function} (run : Gen.function scope f d = .ok g d') :
  d.pool.Grows d'.pool
    ∧ ∀ constants, (∃ more, constants = d'.constants ++ more) → g.CompiledFrom constants f
  := by
  simp only [Gen.function] at run
  cases bodied : f.body with
  | none =>
    rw [bodied] at run
    cases run
    refine ⟨.refl _, fun constants _ => ⟨rfl, rfl, rfl, rfl, rfl, fun _ => rfl, ?_⟩⟩
    intro body impossible
    rw [bodied] at impossible
    cases impossible
  | some body =>
    rw [bodied] at run
    obtain ⟨code, d₁, run₁, rest₁⟩ := bind_eq_ok.1 run
    obtain ⟨rfl, rfl⟩ := pure_eq_ok.1 rest₁
    obtain ⟨block, run₂, rfl⟩ := map_eq_ok.1 run₁
    obtain ⟨grows, encodes⟩ := functionBody_eq_ok run₂
    refine ⟨grows, fun constants extended => ⟨rfl, rfl, rfl, rfl, rfl, ?_, ?_⟩⟩
    · intro impossible
      rw [bodied] at impossible
      cases impossible
    · rintro body' same
      rw [bodied] at same
      cases same
      exact ⟨block, rfl, encodes constants extended⟩

theorem functions_eq_ok {fs : List FunctionDecl} {gs : List Function}
    (run : Gen.functions scope fs d = .ok gs d') :
  d.pool.Grows d'.pool ∧ ∀ constants, (∃ more, constants = d'.constants ++ more) →
      Forall₂ (Function.CompiledFrom constants) fs gs
  := by
  induction fs generalizing gs d with
  | nil =>
    cases run
    exact ⟨.refl _, fun _ _ => .nil⟩
  | cons f rest ih =>
    obtain ⟨g, d₁, run₁, rest₁⟩ := bind_eq_ok.1 run
    obtain ⟨others, d₂, run₂, rest₂⟩ := bind_eq_ok.1 rest₁
    obtain ⟨rfl, rfl⟩ := pure_eq_ok.1 rest₂
    obtain ⟨grows, compiled⟩ := function_eq_ok run₁
    obtain ⟨grows', compiled'⟩ := ih run₂
    refine ⟨grows.trans grows', fun constants extended => ?_⟩
    exact .cons (compiled constants (extends_trans grows'.extended extended))
      (compiled' constants extended)

/-! ### Programs -/

/-- What compilation makes of a program. -/
structure CompiledFrom (p : Program) (exe : Executable) : Prop where
  globals : exe.globals = p.globals.toArray
  classes : layoutClasses p = .ok exe.classes.toList
  functions : Forall₂ (Function.CompiledFrom exe.constants) p.functions exe.functions.toList
  topLevel : exe.topLevel.Encodes exe.constants (p.piece none)
  /-- The top level has no frame. -/
  frameless : (p.piece none).Every (fun i => i.op.isFramed = false)

/-- The generation of all bodies of a program. -/
def Gen.bodies (scope : Scope) (p : Program) : Gen (List Function × CodeBlock) := do
  let functions ← Gen.functions scope p.functions
  return (functions, ← Gen.topLevel scope p.statements)

/-- What has been done for a program that was compiled. -/
theorem generated_of_compile (compiled : compile p = .ok exe) :
  checkNames p = .ok () ∧ ∃ classes functions topLevel d, layoutClasses p = .ok classes
    ∧ Gen.bodies ⟨p.functions.length, classes.toArray⟩ p {} = .ok (functions, topLevel) d
    ∧ exe = ⟨p.package, d.constants, p.globals.toArray, functions.toArray, classes.toArray,
        topLevel⟩
  := by
  unfold compile at compiled
  cases checked : checkNames p with
  | error e =>
    rw [checked] at compiled
    cases compiled
  | ok _ =>
    cases laid : layoutClasses p with
    | error e =>
      rw [checked, laid] at compiled
      cases compiled
    | ok classes =>
      rw [checked, laid] at compiled
      simp only [bind, Except.bind] at compiled
      split at compiled
      · cases compiled
      · next functions topLevel d generated =>
          cases compiled
          exact ⟨rfl, classes, functions, topLevel, d, rfl, generated, rfl⟩

/-- Where the compilation of a program has failed. -/
theorem failed_of_compile {e : CompileError} (failed : compile p = .error e) :
  checkNames p = .error e ∨ layoutClasses p = .error e
    ∨ ∃ classes d, layoutClasses p = .ok classes
      ∧ Gen.bodies ⟨p.functions.length, classes.toArray⟩ p {} = .error e d
  := by
  unfold compile at failed
  cases checked : checkNames p with
  | error e' =>
    rw [checked] at failed
    cases failed
    exact .inl rfl
  | ok _ =>
    right
    cases laid : layoutClasses p with
    | error e' =>
      rw [checked, laid] at failed
      cases failed
      exact .inl rfl
    | ok classes =>
      right
      rw [checked, laid] at failed
      simp only [bind, Except.bind] at failed
      split at failed
      · next e' d generated =>
          cases failed
          exact ⟨classes, d, rfl, generated⟩
      · cases failed

theorem compile_eq_ok (compiled : compile p = .ok exe) :
  CompiledFrom p exe
  := by
  obtain ⟨-, classes, gs, block, d, laid, generated, rfl⟩ := generated_of_compile compiled
  obtain ⟨fs, d₁, run₁, rest₁⟩ := bind_eq_ok.1 generated
  obtain ⟨code, d₂, run₂, rest₂⟩ := bind_eq_ok.1 rest₁
  obtain ⟨same, rfl⟩ := pure_eq_ok.1 rest₂
  cases same
  obtain ⟨-, functions⟩ := functions_eq_ok run₁
  obtain ⟨grows, topLevel, frameless⟩ := topLevel_eq_ok run₂
  exact ⟨rfl, by simpa using laid, functions _ grows.extended, topLevel, frameless⟩

/-- No constant is twice in the pool of a program that was compiled. -/
theorem nodup_constants_of_compile (compiled : compile p = .ok exe) :
  exe.constants.toList.Nodup
  := by
  obtain ⟨-, classes, gs, block, d, -, generated, rfl⟩ := generated_of_compile compiled
  obtain ⟨fs, d₁, run₁, rest₁⟩ := bind_eq_ok.1 generated
  obtain ⟨code, d₂, run₂, rest₂⟩ := bind_eq_ok.1 rest₁
  obtain ⟨-, rfl⟩ := pure_eq_ok.1 rest₂
  obtain ⟨grows, -⟩ := functions_eq_ok run₁
  obtain ⟨grows', -⟩ := topLevel_eq_ok run₂
  exact (grows.trans grows').distinct List.nodup_nil

namespace CompiledFrom

variable {p : Program} {exe : Executable}

/-- Functions are compiled in the order of their table. -/
theorem function_of_getElem? (compiled : CompiledFrom p exe) {index : Nat} {g : Function}
    (found : exe.functions[index]? = some g) :
  ∃ f, p.functions[index]? = some f ∧ g.CompiledFrom exe.constants f
  := by
  apply exists_of_forall₂_getElem? compiled.functions
  rw [Array.getElem?_toList, found]

theorem function_of_declared (compiled : CompiledFrom p exe) {index : Nat} {f : FunctionDecl}
    (declared : p.functions[index]? = some f) :
  ∃ g, exe.functions[index]? = some g ∧ g.CompiledFrom exe.constants f
  := by
  obtain ⟨g, found, fromDecl⟩ := exists_of_forall₂_getElem? compiled.functions.flip declared
  exact ⟨g, by rwa [Array.getElem?_toList] at found, fromDecl⟩

/-- A function with code is declared with a body. -/
theorem exists_body (compiled : CompiledFrom p exe) {index : Nat} {g : Function}
    (found : exe.functions[index]? = some g) (code : g.isNative = false) :
  ∃ f body, p.functions[index]? = some f ∧ f.body = some body ∧ g.CompiledFrom exe.constants f
  := by
  obtain ⟨f, declared, fromDecl⟩ := compiled.function_of_getElem? found
  cases bodied : f.body with
  | none => simp [Function.isNative, fromDecl.native bodied] at code
  | some body => exact ⟨f, body, declared, bodied, fromDecl⟩

/-- A function with code starts with an instruction. -/
theorem lands_points (compiled : CompiledFrom p exe) {index : Nat} {g : Function}
    (found : exe.functions[index]? = some g) (code : g.isNative = false) :
  Lands (p.points (some index)) 0 0
  := by
  obtain ⟨f, body, declared, bodied, -⟩ := compiled.exists_body found code
  exact p.lands_points_function declared bodied

/-- There is code wherever an instruction is planned. -/
theorem exists_code (compiled : CompiledFrom p exe) {current : Option Nat} {point : Point}
    (listed : point ∈ p.points current) :
  ∃ block, exe.code? current = some block
  := by
  cases current with
  | none => exact ⟨exe.topLevel, rfl⟩
  | some index =>
    cases declared : p.functions[index]? with
    | none => simp [Program.points, Program.piece, declared, Piece.points] at listed
    | some f =>
      cases bodied : f.body with
      | none => simp [Program.points, Program.piece, declared, bodied, Piece.points] at listed
      | some body =>
        obtain ⟨g, found, fromDecl⟩ := compiled.function_of_declared declared
        obtain ⟨block, coded, -⟩ := fromDecl.code body bodied
        exact ⟨block, by simp [Executable.code?, found, coded]⟩

/-- The code of every function and of the top level consists of the instructions planned. -/
theorem encodes (compiled : CompiledFrom p exe) {current : Option Nat} {block : CodeBlock}
    (found : exe.code? current = some block) :
  block.Encodes exe.constants (p.piece current)
  := by
  cases current with
  | none =>
    cases found
    exact compiled.topLevel
  | some index =>
    obtain ⟨g, isFunction, coded⟩ := Option.bind_eq_some_iff.1 found
    obtain ⟨f, body, declared, bodied, fromDecl⟩ :=
      compiled.exists_body isFunction (by simp [Function.isNative, coded])
    obtain ⟨block', coded', encodes⟩ := fromDecl.code body bodied
    rw [coded'] at coded
    cases coded
    simpa [Program.piece, declared, bodied] using encodes

end CompiledFrom

end Bytecode
