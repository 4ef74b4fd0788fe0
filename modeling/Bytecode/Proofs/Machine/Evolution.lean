import Mathlib
import Bytecode.Proofs.Machine.Sessions

/-!
# How a machine evolves

`Machine.Evolves` is the life of a machine in the smallest parts that a host can tell apart: it takes
a step, in whichever way the step ends; it is entered by the top level or by a call, and put back
after a call; it is linked, collects garbage, or gets a string from the host. A condition may be put
on the heap right after each collection, so that one can speak of what has not been collected.

All that comes of the requests of a host comes about in this way, `Served.evolves`.
-/

namespace Bytecode

namespace Machine

/-- What becomes of a machine that is linked with native functions as allowed, if its heap is as
required after each collection. -/
inductive Evolves (links : Registry → Prop) (Kept : Heap → Prop) (start : Machine) : Machine → Prop
  | refl : Evolves links Kept start start
  | step {m : Machine} :
      Evolves links Kept start m → Kept (stateOf (collectIfDue m)).heap →
      Evolves links Kept start (stateOf (step m))
  | restart {m : Machine} : Evolves links Kept start m → Evolves links Kept start m.restart
  | enter {m : Machine} (index : Nat) (f : Function) (args : List Value) :
      Evolves links Kept start m → Evolves links Kept start (stateOf (beginCall index f args m))
  | leave {m : Machine} (before : Machine) :
      Evolves links Kept start m → Evolves links Kept start (before.withFrameOf m)
  | link {m : Machine} {registry : Registry} :
      Evolves links Kept start m → links registry → Evolves links Kept start (link registry m).2
  | collect {m : Machine} :
      Evolves links Kept start m → Kept (stateOf (collect m)).heap →
      Evolves links Kept start (stateOf (collect m))
  | newString {m : Machine} (text : String) :
      Evolves links Kept start m → Evolves links Kept start (stateOf (newString text m))

namespace Evolves

variable {links : Registry → Prop} {Kept : Heap → Prop} {start m m' : Machine}

/-- What holds of a machine whatever its program does holds of all that becomes of it, if linking
keeps it. -/
theorem invariant {Inv : Machine → Prop} (evolves : Evolves links Kept start m) (initial : Inv start)
    (kept : ∀ m m', SameProgram m m' → Inv m → Inv m')
    (linked : ∀ m registry, links registry → Inv m → Inv (Machine.link registry m).2) :
  Inv m
  := by
  have law := SameProgram.law
  induction evolves with
  | refl => exact initial
  | @step m _ _ ih => exact kept _ _ (law.step m) ih
  | @restart m _ ih => exact kept _ _ (law.restart m) ih
  | @enter m index f args _ ih => exact kept _ _ (law.beginCall index f args m) ih
  | @leave m before _ ih => exact kept m _ ⟨rfl, rfl⟩ ih
  | link _ allowed ih => exact linked _ _ allowed ih
  | @collect m _ _ ih => exact kept _ _ (law.collect m) ih
  | @newString m text _ ih =>
    have made := law.offStack (offStack_newString text) (ordinary_newString text).derives
    exact kept _ _ (made m) ih

/-- What becomes of a machine follows every law that linking and leaving a call follow. -/
theorem follows {R : Machine → Machine → Prop} [IsPreorder Machine R] (law : Law R)
    (leaving : ∀ before m : Machine, R m (before.withFrameOf m))
    (linking : ∀ m registry, links registry → R m (Machine.link registry m).2)
    (evolves : Evolves links Kept start m) :
  R start m
  := by
  induction evolves with
  | refl => exact refl_of R start
  | @step m _ _ ih => exact trans_of R ih (law.step m)
  | @restart m _ ih => exact trans_of R ih (law.restart m)
  | @enter m index f args _ ih => exact trans_of R ih (law.beginCall index f args m)
  | @leave m before _ ih => exact trans_of R ih (leaving before m)
  | link _ allowed ih => exact trans_of R ih (linking _ _ allowed)
  | @collect m _ _ ih => exact trans_of R ih (law.collect m)
  | @newString m text _ ih =>
    have made := law.offStack (offStack_newString text) (ordinary_newString text).derives
    exact trans_of R ih (made m)

end Evolves

/-! ### Requests of a host -/

section

variable {links : Registry → Prop} {start m : Machine}

theorem Evolves.reaches (evolves : Evolves links (fun _ => True) start m) {Fits : Machine → Prop}
    {m' : Machine} (reaches : Reaches Fits m m') :
  Evolves links (fun _ => True) start m'
  := by
  induction reaches with
  | refl => exact evolves
  | step _ _ stepped ih =>
    have next := ih.step trivial
    rwa [stepped, stateOf_ok] at next

theorem Evolves.resume (evolves : Evolves links (fun _ => True) start m) (fuel : Nat) :
  Evolves links (fun _ => True) start (Machine.resume fuel m).2
  := by
  obtain ⟨m', reaches, ends | ends⟩ := exists_resume_eq fuel m
  · rw [ends]
    exact evolves.reaches reaches
  · rw [ends]
    exact (evolves.reaches reaches).step trivial

theorem Evolves.enterFromHost (evolves : Evolves links (fun _ => True) start m) (fuel index : Nat)
    (args : List Value) :
  Evolves links (fun _ => True) start (Machine.enterFromHost fuel index args m).2
  := by
  rcases enterFromHost_eq fuel index args m with same | ⟨f, -, -, same | ⟨m₁, ran, same⟩⟩
  · rwa [same]
  · rw [same]
    exact evolves.enter index f args
  · have begun := evolves.enter index f args
    rw [ran] at begun
    rw [same]
    exact begun.resume fuel

/-- What comes of the requests of a host. -/
theorem Served.evolves (served : Served links start m) :
  Evolves links (fun _ => True) start m
  := by
  induction served with
  | refl => exact .refl
  | link _ allowed ih => exact ih.link allowed
  | run fuel _ ih => exact ih.restart.resume fuel
  | @call m fuel index args _ ih => exact (ih.enterFromHost fuel index args).leave m
  | collect _ ih => exact ih.collect trivial

end

end Machine

end Bytecode
