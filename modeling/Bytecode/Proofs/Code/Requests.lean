import Mathlib
import Bytecode.Proofs.Code.History

/-!
# Labels by rank

A label is known by its number, of which there are 65536. Here the requests to a buffer are recorded
with the rank of every label instead, the count of labels made before it: a jump and a binding mean
the label that was made at that rank, whatever number it has. As long as numbers are not used up
they are the ranks, and each jump of the finished code leads to where the label that it means was
bound last: `Requested.jumps_finished`.
-/

namespace Bytecode

namespace CodeBuffer

/-- A request with what it yielded. -/
inductive Request
  | emitted (pc : Nat) (op : Op) (operands : List Int)
  | made (label : Label)
  /-- The label of this rank was bound when the buffer had this size. -/
  | bound (rank : Nat) (label : Label) (size : Nat)
  | jumped (pc : Nat) (op : Op) (rank : Nat) (label : Label)

namespace Request

def label? : Request → Option Label
  | made label => some label
  | _ => none

/-- The place, the opcode and the rank of the label of a jump. -/
def jump? : Request → Option (Nat × Op × Nat)
  | jumped pc op rank _ => some (pc, op, rank)
  | _ => none

/-- Where the request puts the label of a rank. -/
def place? (rank : Nat) : Request → Option Nat
  | bound rank' _ size => if rank' = rank then some size else none
  | _ => none

/-- What the history of the buffer knows of the request. -/
def event? : Request → Option Event
  | emitted pc op operands => some (.emitted ⟨pc, op, operands⟩)
  | made _ => none
  | bound _ label size => some (.bound label size)
  | jumped pc op _ label => some (.emitted ⟨pc, op, [label.number.toNat]⟩)

/-- A request that names a label means the one of that rank, and only such a request jumps. -/
def Means (labels : List Label) : Request → Prop
  | emitted _ op _ => op.isJump = false
  | made _ => True
  | bound rank label _ => labels[rank]? = some label
  | jumped _ op rank label => op.isJump ∧ labels[rank]? = some label

end Request

/-- The labels that were made, in order. -/
def made (requests : List Request) : List Label := requests.filterMap Request.label?

/-- The jumps that were requested, in order. -/
def jumps (requests : List Request) : List (Nat × Op × Nat) := requests.filterMap Request.jump?

/-- The size of the buffer when the label of a rank was bound last. -/
def ownPlace? (requests : List Request) (rank : Nat) : Option Nat :=
  requests.reverse.findSome? (Request.place? rank)

/-- The buffer is the result of these requests, which all succeeded. Jumps and bindings name labels
that had been made. -/
inductive Requested : List Request → CodeBuffer → Prop
  | new : Requested [] {}
  | emit {requests : List Request} {b b' : CodeBuffer} {line : UInt32} {op : Op}
      {operands : List Int} {pc : Nat} : Requested requests b → op.isJump = false →
      tryEmit line op operands b = .ok pc b' →
      Requested (requests ++ [.emitted pc op operands]) b'
  | newLabel {requests : List Request} {b : CodeBuffer} : Requested requests b →
      Requested (requests ++ [.made b.newLabel.1]) b.newLabel.2
  | setLabel {requests : List Request} {b b' : CodeBuffer} {rank : Nat} {label : Label} :
      Requested requests b → (made requests)[rank]? = some label →
      trySetLabel label b = .ok () b' → Requested (requests ++ [.bound rank label b.size]) b'
  | emitJump {requests : List Request} {b b' : CodeBuffer} {line : UInt32} {op : Op} {rank : Nat}
      {label : Label} {pc : Nat} : Requested requests b → (made requests)[rank]? = some label →
      tryEmitJump line op label b = .ok pc b' →
      Requested (requests ++ [.jumped pc op rank label]) b'

/-- The buffer goes on to another one by requests that succeed. -/
def Proceeds (b b' : CodeBuffer) : Prop :=
  ∀ requests, Requested requests b → ∃ more, Requested (requests ++ more) b'

theorem Proceeds.refl (b : CodeBuffer) :
  b.Proceeds b
  := fun _ requested => ⟨[], by simpa using requested⟩

theorem Proceeds.trans {b b' b'' : CodeBuffer} (first : b.Proceeds b') (second : b'.Proceeds b'') :
  b.Proceeds b''
  := by
  intro requests requested
  obtain ⟨more, requested'⟩ := first requests requested
  obtain ⟨more', requested''⟩ := second _ requested'
  exact ⟨more ++ more', by rwa [← List.append_assoc]⟩

theorem operandWord_number (label : Label) :
  operandWord (label.number.toNat : Int) = label.number
  := by
  apply UInt16.toNat_inj.1
  rw [toNat_operandWord_natCast label.number.toNat_lt]

namespace Requested

variable {requests : List Request} {b : CodeBuffer} {rank : Nat} {label : Label}

theorem tryEmitJump_eq_ok {line : UInt32} {op : Op} {b' : CodeBuffer} {pc : Nat}
    (done : tryEmitJump line op label b = .ok pc b') :
  op.isJump ∧ tryEmit line op [(label.number.toNat : Int)] b = .ok pc b'
  := by
  unfold tryEmitJump at done
  split at done
  · next jump => exact ⟨jump, done⟩
  · cases done

/-- The history of the buffer. -/
theorem written (requested : Requested requests b) :
  Written (requests.filterMap Request.event?) b
  := by
  induction requested with
  | new => exact .new
  | emit _ _ done ih => simpa [Request.event?] using ih.emit done
  | newLabel _ ih =>
    rw [List.filterMap_append]
    exact (List.append_nil _).symm ▸ ih.newLabel
  | setLabel _ _ done ih => simpa [Request.event?] using ih.setLabel done
  | emitJump _ _ done ih => simpa [Request.event?] using ih.emitJump done

/-- Labels are numbered in the order of the requests, as far as there are numbers. -/
theorem made_eq (requested : Requested requests b) :
  made requests = (List.range b.labels.size).map fun rank => ⟨rank.toUInt16⟩
  := by
  induction requested with
  | new => rfl
  | emit _ _ done ih =>
    obtain ⟨arity, emitted⟩ := tryEmit_eq_ok done
    rw [(emit_eq_ok arity emitted).1, ← ih]
    simp [made, Request.label?]
  | @newLabel requests b _ ih =>
    have one : made (requests ++ [.made b.newLabel.1]) = made requests ++ [b.newLabel.1] := by
      simp [made, Request.label?]
    rw [one, ih]
    simp [CodeBuffer.newLabel, List.range_succ]
  | @setLabel requests b b' rank label _ _ done ih =>
    unfold trySetLabel at done
    split at done
    · cases done
      rw [CodeBuffer.setLabel, Array.size_setIfInBounds, ← ih]
      simp [made, Request.label?]
    · cases done
  | emitJump _ _ done ih =>
    obtain ⟨arity, emitted⟩ := tryEmit_eq_ok (tryEmitJump_eq_ok done).2
    rw [(emit_eq_ok arity emitted).1, ← ih]
    simp [made, Request.label?]

theorem length_made (requested : Requested requests b) :
  (made requests).length = b.labels.size
  := by
  simp [requested.made_eq]

/-- The label that is made at a rank. -/
theorem getElem?_made (requested : Requested requests b) (old : rank < b.labels.size) :
  (made requests)[rank]? = some ⟨rank.toUInt16⟩
  := by
  simp [requested.made_eq, old]

theorem means (requested : Requested requests b) :
  ∀ request ∈ requests, request.Means (made requests)
  := by
  have grown (requests : List Request) (next request : Request)
      (means : request.Means (made requests)) : request.Means (made (requests ++ [next])) := by
    have kept {rank : Nat} {label : Label} (found : (made requests)[rank]? = some label) :
        (made (requests ++ [next]))[rank]? = some label := by
      rw [made, List.filterMap_append, List.getElem?_append_left, ← found, made]
      exact (List.getElem?_eq_some_iff.1 found).1
    cases request with
    | emitted pc op operands | made label => exact means
    | bound rank label size => exact kept means
    | jumped pc op rank label => exact ⟨means.1, kept means.2⟩
  have snoc (requests : List Request) (next : Request)
      (earlier : ∀ request ∈ requests, request.Means (made requests))
      (last : next.Means (made requests)) :
      ∀ request ∈ requests ++ [next], request.Means (made (requests ++ [next])) := by
    intro request listed
    rcases List.mem_append.1 listed with old | new
    · exact grown requests next request (earlier request old)
    · rw [List.mem_singleton.1 new]
      exact grown requests next next last
  induction requested with
  | new => simp
  | emit _ plain _ ih => exact snoc _ _ ih plain
  | newLabel _ ih => exact snoc _ _ ih trivial
  | setLabel _ found _ ih => exact snoc _ _ ih found
  | emitJump _ found done ih => exact snoc _ _ ih ⟨(tryEmitJump_eq_ok done).1, found⟩

end Requested

/-! ### How buffers proceed -/

section Proceeds

variable {b b' : CodeBuffer} {label : Label}

theorem proceeds_newLabel (b : CodeBuffer) :
  b.Proceeds b.newLabel.2
  := fun _ requested => ⟨_, requested.newLabel⟩

theorem Requested.getElem?_number {requests : List Request} (requested : Requested requests b)
    (old : label.number.toNat < b.labels.size) :
  (made requests)[label.number.toNat]? = some label
  := by
  rw [requested.getElem?_made old, Nat.toUInt16, UInt16.ofNat_toNat]

theorem proceeds_setLabel (old : label.number.toNat < b.labels.size) :
  b.Proceeds (b.setLabel label)
  := fun _ requested =>
    ⟨_, requested.setLabel (requested.getElem?_number old) (by rw [trySetLabel, if_pos old])⟩

/-- An instruction has been appended. A jump must name a label that was made. -/
theorem proceeds_emit {line : UInt32} {op : Op} {operands : List Int} {pc : Nat}
    (arity : operands.length = op.arity)
    (named : op.isJump → ∃ label : Label, label.number.toNat < b.labels.size
      ∧ operands = [(label.number.toNat : Int)])
    (emitted : emit line op operands b = .ok pc b') :
  b.Proceeds b'
  := by
  intro requests requested
  have done : tryEmit line op operands b = .ok pc b' := by
    rw [tryEmit, if_pos arity, emitted]
  by_cases jump : op.isJump
  · obtain ⟨label, old, rfl⟩ := named jump
    exact ⟨_, requested.emitJump (requested.getElem?_number old) ((if_pos jump).trans done)⟩
  · exact ⟨_, requested.emit (by simpa using jump) done⟩

end Proceeds

/-! ### Few labels -/

namespace Requested

variable {requests : List Request} {b : CodeBuffer} {block : CodeBlock} {rank : Nat} {label : Label}

section Few

variable (requested : Requested requests b) (few : (made requests).length ≤ 65536)
include requested few

/-- While there are numbers, the number of a label is its rank. -/
theorem toNat_number (found : (made requests)[rank]? = some label) :
  label.number.toNat = rank
  := by
  rw [requested.length_made] at few
  have old : rank < b.labels.size := by
    rw [← requested.length_made]
    exact (List.getElem?_eq_some_iff.1 found).1
  rw [requested.getElem?_made old] at found
  cases found
  simp only [Nat.toUInt16, UInt16.toNat_ofNat']
  omega

theorem nodup_made :
  ((made requests).map Label.number).Nodup
  := by
  rw [List.nodup_iff_getElem?_ne_getElem?]
  intro rank rank' less old same
  rw [List.length_map] at old
  rw [List.getElem?_map, List.getElem?_map, List.getElem?_eq_getElem old,
    List.getElem?_eq_getElem (Nat.lt_trans less old)] at same
  have number := requested.toNat_number few (List.getElem?_eq_getElem old)
  have number' := requested.toNat_number few (List.getElem?_eq_getElem (Nat.lt_trans less old))
  rw [Option.some.inj same] at number'
  omega

/-- The label of a number was bound where the one of its rank was. -/
theorem lastPlace?_eq (found : (made requests)[rank]? = some label) :
  lastPlace? (requests.filterMap Request.event?) label.number = ownPlace? requests rank
  := by
  have number := requested.toNat_number few found
  rw [lastPlace?, ownPlace?, ← List.filterMap_reverse, ← List.head?_filterMap,
    ← List.head?_filterMap, List.filterMap_filterMap]
  congr 1
  apply List.filterMap_congr
  intro request listed
  have means := requested.means request (List.mem_reverse.1 listed)
  cases request with
  | emitted pc op operands | made label' | jumped pc op rank' label' => rfl
  | bound rank' label' size =>
    have number' := requested.toNat_number few means
    simp only [Request.event?, Option.bind_some, Event.place?, Request.place?, ← UInt16.toNat_inj,
      number, number']

/-- A jump is finished with the place of the label that it means. -/
theorem operand_finished (finished : b.finish = .ok block) {pc : Nat} {op : Op}
    (listed : .jumped pc op rank label ∈ requests) :
  (b.resolved ⟨pc, op, some label.number⟩).operand.map UInt16.toNat = ownPlace? requests rank
  := by
  obtain ⟨jump, found⟩ := requested.means _ listed
  have follows := requested.written.follows
  obtain ⟨small, -, -, -, placed⟩ := finish_eq_ok follows.walk finished
  have emitted : Emission.mk pc op [(label.number.toNat : Int)]
      ∈ emissions (requests.filterMap Request.event?) := by
    rw [emissions, List.filterMap_filterMap]
    exact List.mem_filterMap.2 ⟨_, listed, rfl⟩
  have isPlaced := placed _ (List.mem_map_of_mem emitted) jump
  obtain ⟨place, isPlace⟩ := Option.isSome_iff_exists.1 isPlaced
  simp only [Emission.instruction, List.head?_cons, Option.map_some, Option.getD_some,
    operandWord_number] at isPlace
  have bound := isPlace
  rw [follows.places] at bound
  have inside := follows.bounded _ _ bound
  have whole : place.toUInt16.toNat = place := by
    unfold maxCodeSize at small
    simp only [Nat.toUInt16, UInt16.toNat_ofNat']
    omega
  rw [← requested.lastPlace?_eq few found, bound]
  simp [resolved, jump, isPlace, whole]

/-- The jumps of the finished code are those requested, and each leads to where the label that it
means was bound last. -/
theorem jumps_finished (finished : b.finish = .ok block) :
  ((decode block.code).instructions.filter (·.op.isJump)).map
      (fun i => (i.pc, i.op, i.operand.map UInt16.toNat))
    = (jumps requests).map fun (pc, op, rank) => (pc, op, ownPlace? requests rank)
  := by
  have follows := requested.written.follows
  obtain ⟨-, -, -, walk, -⟩ := finish_eq_ok follows.walk finished
  rw [decode_eq_of_walk walk, emissions, List.filterMap_filterMap, jumps]
  simp only [List.map_filterMap, List.filter_filterMap]
  apply List.filterMap_congr
  intro request listed
  have means := requested.means request listed
  cases request with
  | emitted pc op operands =>
    have plain : op.isJump = false := means
    simp [Request.event?, Event.emission?, Request.jump?, Emission.instruction, plain]
  | made label | bound rank label size => rfl
  | jumped pc op rank label =>
    have patched := requested.operand_finished few finished listed
    simp [Request.event?, Event.emission?, Request.jump?, Emission.instruction, means.1, ← patched,
      operandWord_number]

end Few

end Requested

end CodeBuffer

end Bytecode
