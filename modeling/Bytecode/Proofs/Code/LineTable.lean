import Mathlib
import Bytecode.Code.Lines

/-!
# Line tables that tile the code

The runs of a line table that was written byte by byte tile the code: they are not empty and
follow each other without a gap. In such a table every place of the code has exactly one line,
and `addLine` gives the bytes that it adds their line without changing that of the others.
-/

namespace Bytecode

variable {pc stop start : Nat} {runs : List LineRun}

@[simp] theorem LineRun.covers_iff (run : LineRun) (pc : Nat) :
  run.covers pc = true ↔ run.startPc ≤ pc ∧ pc < run.startPc + run.pcCount
  := decide_eq_true_iff

/-- The runs are not empty and follow each other from one place to another. -/
def Tiles : List LineRun → Nat → Nat → Prop
  | [], start, stop => start = stop
  | run :: rest, start, stop => run.startPc = start ∧ 0 < run.pcCount ∧ Tiles rest run.endPc stop

theorem tiles_append {first second : List LineRun} :
  Tiles (first ++ second) start stop
    ↔ ∃ middle, Tiles first start middle ∧ Tiles second middle stop
  := by
  induction first generalizing start with
  | nil => simp [Tiles]
  | cons run rest ih =>
    simp only [List.cons_append, Tiles, ih]
    constructor
    · rintro ⟨starts, filled, middle, left, right⟩
      exact ⟨middle, ⟨starts, filled, left⟩, right⟩
    · rintro ⟨middle, ⟨starts, filled, left⟩, right⟩
      exact ⟨starts, filled, middle, left, right⟩

theorem Tiles.le (tiles : Tiles runs start stop) :
  start ≤ stop
  := by
  induction runs generalizing start with
  | nil => exact Nat.le_of_eq tiles
  | cons run rest ih =>
    obtain ⟨rfl, -, later⟩ := tiles
    have bound := ih later
    unfold LineRun.endPc at bound
    omega

/-- Runs that tile a piece of code cover no place outside it. -/
theorem Tiles.not_covers (tiles : Tiles runs start stop) (outside : pc < start ∨ stop ≤ pc)
    {run : LineRun} (listed : run ∈ runs) :
  ¬run.covers pc
  := by
  induction runs generalizing start with
  | nil => simp at listed
  | cons first rest ih =>
    obtain ⟨rfl, filled, later⟩ := tiles
    have bound := later.le
    unfold LineRun.endPc at bound
    rcases List.mem_cons.1 listed with rfl | inRest
    · rw [LineRun.covers_iff]
      omega
    · apply ih later _ inRest
      unfold LineRun.endPc
      omega

/-- No look-up in a table of a piece of code comes to a run that ends beyond it. -/
theorem Tiles.lookupFits (tiles : Tiles runs start stop) (small : stop < 2 ^ 64) :
  lookupFits runs pc
  := by
  induction runs generalizing start with
  | nil => rfl
  | cons run rest ih =>
    obtain ⟨-, -, later⟩ := tiles
    have bound := later.le
    unfold Bytecode.lookupFits
    split
    · simp only [LineRun.fits, Bool.and_eq_true, decide_eq_true_eq, Bool.or_eq_true]
      exact ⟨by omega, .inr (ih later)⟩
    · exact ih later

/-- A line is looked up from the first run on. -/
theorem lineAt_eq_find? (runs : Array LineRun) (pc : Nat) :
  lineAt runs pc = (runs.toList.find? fun run => run.covers pc).map (·.line)
  := by
  rw [lineAt, Array.find?_toList]

/-- How adding bytes changes a table, as a list of runs. -/
theorem toList_addLine (runs : Array LineRun) (line : UInt32) (start count : Nat) :
  (addLine runs line start count).toList = runs.toList ++ [⟨line, start, count⟩]
    ∨ ∃ (init : List LineRun) (last : LineRun), runs.toList = init ++ [last] ∧ last.line = line
      ∧ (addLine runs line start count).toList
          = init ++ [{ last with pcCount := last.pcCount + count }]
  := by
  unfold addLine
  rcases back : runs.back? with _ | last
  · left
    simp
  · by_cases same : last.line = line
    · right
      obtain ⟨init, rfl⟩ := Array.back?_eq_some_iff.1 back
      use init.toList, last
      simp [same]
    · left
      simp [same]

theorem tiles_addLine {runs : Array LineRun} {count : Nat} (tiles : Tiles runs.toList 0 start)
    (filled : 0 < count) (line : UInt32) :
  Tiles (addLine runs line start count).toList 0 (start + count)
  := by
  rcases toList_addLine runs line start count with appended | ⟨init, last, split, -, extended⟩
  · rw [appended]
    apply tiles_append.2
    exact ⟨start, tiles, rfl, filled, rfl⟩
  · rw [split] at tiles
    rw [extended]
    obtain ⟨middle, left, starts, -, stops⟩ := tiles_append.1 tiles
    apply tiles_append.2
    refine ⟨middle, left, starts, by simp only; omega, ?_⟩
    simp only [Tiles, LineRun.endPc] at stops ⊢
    omega

/-- The bytes that are added have the line given, and the others keep theirs. -/
theorem lineAt_addLine {runs : Array LineRun} {count : Nat} (tiles : Tiles runs.toList 0 start)
    (line : UInt32) (pc : Nat) :
  lineAt (addLine runs line start count) pc
    = if start ≤ pc ∧ pc < start + count then some line else lineAt runs pc
  := by
  rw [lineAt_eq_find?, lineAt_eq_find?]
  rcases toList_addLine runs line start count with appended | ⟨init, last, split, rfl, extended⟩
  · rw [appended, List.find?_append, List.find?_singleton]
    by_cases new : start ≤ pc ∧ pc < start + count
    · have before : runs.toList.find? (fun run => run.covers pc) = none := by
        apply List.find?_eq_none.2
        intro run listed
        exact tiles.not_covers (.inr new.1) listed
      rw [before, if_pos new, if_pos ((LineRun.covers_iff _ _).2 new)]
      rfl
    · rw [if_neg new, if_neg (mt (LineRun.covers_iff _ _).1 new), Option.or_none]
  · rw [split] at tiles
    obtain ⟨middle, left, starts, filled, stops⟩ := tiles_append.1 tiles
    simp only [Tiles, LineRun.endPc] at stops
    rw [extended, split, List.find?_append, List.find?_append, List.find?_singleton,
      List.find?_singleton]
    simp only [LineRun.covers_iff]
    by_cases new : start ≤ pc ∧ pc < start + count
    · have before : init.find? (fun run => run.covers pc) = none := by
        apply List.find?_eq_none.2
        intro run listed
        exact left.not_covers (.inr (by omega)) listed
      rw [before, if_pos new, if_pos (by omega)]
      rfl
    · rw [if_neg new]
      by_cases covered : last.startPc ≤ pc ∧ pc < last.startPc + last.pcCount
      · rw [if_pos covered, if_pos (by omega)]
        cases init.find? fun run => run.covers pc with
        | none => rfl
        | some run => rfl
      · rw [if_neg covered, if_neg (by omega)]

/-- Runs that tile a piece of code cover every place of it. -/
theorem Tiles.exists_covers (tiles : Tiles runs start stop) (lower : start ≤ pc)
    (upper : pc < stop) :
  ∃ run ∈ runs, run.covers pc
  := by
  induction runs generalizing start with
  | nil =>
    simp only [Tiles] at tiles
    omega
  | cons run rest ih =>
    obtain ⟨rfl, -, later⟩ := tiles
    by_cases here : pc < run.endPc
    · exact ⟨run, List.mem_cons_self, (run.covers_iff pc).2 ⟨lower, here⟩⟩
    · obtain ⟨found, listed, covers⟩ := ih later (by omega)
      exact ⟨found, List.mem_cons_of_mem _ listed, covers⟩

end Bytecode
