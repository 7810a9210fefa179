import TaggedText.Proofs.PositionMap.Cuts
import TaggedText.Proofs.PositionMap.Table

/-!
Maps kept as tables of run starts. A run is told by the place where it starts and reaches up to the
start of the next one, so every edit moves the starts behind it. Places are machine words here: a
sum that no word holds and a difference below zero are no results, and neither is an index that is
looked up in a table whose starts are out of order.
-/

namespace TaggedText

-----------------------------------------------------------------------------------------
-- Tables
-----------------------------------------------------------------------------------------

namespace Place

/-- The sum of two places, if a machine word holds it. -/
def add? (left right : Nat) : Option Nat :=
  if left + right < UInt64.size then some (left + right) else none

/-- The difference of two places, if it is not below zero. -/
def sub? (left right : Nat) : Option Nat :=
  if right ≤ left then some (left - right) else none

end Place

/-- How many entries pass a test, if all of them stand in front of those that fail it. -/
def partitionPoint? (test : α → Bool) (entries : List α) : Option Nat :=
  let front := entries.takeWhile test
  if (entries.drop front.length).any test then none else some front.length

/-- Where a run of the working text starts, and how its bytes come from the source. -/
structure RunStart where
  place : Nat
  origin : Nat
  isCopied : Bool
deriving DecidableEq, Repr

namespace RunStart

/-- The source position of a position in the run. -/
def toSource? (start : RunStart) (position : Nat) : Option Nat :=
  if start.isCopied then do
    let offset ← Place.sub? position start.place
    Place.add? start.origin offset
  else some start.origin

/-- The start moved by an edit in front of it that puts a number of bytes in the place of others. -/
def move? (newSize oldSize : Nat) (start : RunStart) : Option RunStart := do
  let grown ← Place.add? start.place newSize
  let place ← Place.sub? grown oldSize
  return { start with place }

end RunStart

/-- The starts of all runs of a working text, in order, and the sizes of both texts. -/
structure RunTable where
  starts : List RunStart := []
  workingSize : Nat := 0
  sourceSize : Nat := 0
deriving DecidableEq, Repr

namespace RunTable

/-- Begins anew with a text of some size that has not been edited. -/
def reset (table : RunTable) (size : Nat) : RunTable :=
  { table with
    starts := if size = 0 then [] else [⟨0, 0, true⟩]
    workingSize := size
    sourceSize := size }

/-- The index of the run that holds a position: that of the last start up to it. -/
def index? (table : RunTable) (position : Nat) : Option Nat := do
  let count ← partitionPoint? (fun start => start.place ≤ position) table.starts
  Place.sub? count 1

/-- The source position of a working position. -/
def toSource? (table : RunTable) (position : Nat) : Option Nat :=
  if table.workingSize ≤ position then some table.sourceSize
  else do
    let index ← table.index? position
    let start ← table.starts[index]?
    start.toSource? position

/-- The table with a run starting at a position inside the working text. -/
def split? (table : RunTable) (position : Nat) : Option RunTable :=
  if position = 0 ∨ table.workingSize ≤ position then some table
  else do
    let index ← table.index? position
    let start ← table.starts[index]?
    if start.place = position then return table
    else
      let origin ← start.toSource? position
      let next ← Place.add? index 1
      return { table with
        starts := table.starts.insertIdx next ⟨position, origin, start.isCopied⟩ }

/-- The table with the runs of a span taken out and a run of new bytes put in, which all stand for one
source position. A run has to start at either end of the span, unless the text ends there.
-/
def exchange? (table : RunTable) (edit : MapEdit) (anchor : Nat) : Option RunTable := do
  let first ← partitionPoint? (fun start => start.place < edit.span.start) table.starts
  let last ← partitionPoint? (fun start => start.place < edit.span.stop) table.starts
  let oldSize ← Place.sub? edit.span.stop edit.span.start
  let moved ← (table.starts.drop last).mapM (RunStart.move? edit.newSize oldSize)
  let inserted := if edit.newSize = 0 then [] else [⟨edit.span.start, anchor, false⟩]
  let grown ← Place.add? table.workingSize edit.newSize
  let workingSize ← Place.sub? grown oldSize
  return { table with starts := table.starts.take first ++ inserted ++ moved, workingSize }

/-- The table after the bytes of a span of the working text were replaced by a number of new bytes. -/
def edit? (table : RunTable) (edit : MapEdit) : Option RunTable :=
  if edit.span.start ≤ edit.span.stop ∧ edit.span.stop ≤ table.workingSize then do
    let anchor ← table.toSource? edit.span.start
    let table ← table.split? edit.span.start
    let table ← table.split? edit.span.stop
    table.exchange? edit anchor
  else none

/-- The table after edits in order. -/
def editAll? (table : RunTable) (edits : List MapEdit) : Option RunTable :=
  edits.foldlM edit? table

end RunTable

theorem Place.add?_eq_some {left right : Nat} (fits : left + right < UInt64.size)
    : add? left right = some (left + right) :=
  if_pos fits

theorem Place.sub?_eq_some {left right : Nat} (notBelow : right ≤ left)
    : sub? left right = some (left - right) :=
  if_pos notBelow

theorem partitionPoint?_append {test : α → Bool} {front back : List α}
    (pass : ∀ entry ∈ front, test entry = true) (fail : ∀ entry ∈ back, test entry = false)
    : partitionPoint? test (front ++ back) = some front.length := by
  have nothing : back.takeWhile test = [] := by
    cases back with
    | nil => rfl
    | cons entry rest => simp [fail entry (by simp)]
  have noneBehind : back.any test = false := by simpa using fail
  simp [partitionPoint?, List.takeWhile_append_of_pos pass, nothing, noneBehind]

theorem insertIdx_behind (front : List α) (entry new : α) (back : List α)
    : (front ++ entry :: back).insertIdx (front.length + 1) new = front ++ entry :: new :: back := by
  induction front with
  | nil => rfl
  | cons first rest ih => simp [ih]

-----------------------------------------------------------------------------------------
-- The starts of runs
-----------------------------------------------------------------------------------------

namespace RunStart

/-- The starts of runs, the first of which starts at a place. -/
def ofRuns (place : Nat) : List Run → List RunStart
  | [] => []
  | run :: rest => ⟨place, run.origin, run.isCopied⟩ :: ofRuns (place + run.length) rest

@[simp] theorem length_ofRuns (place : Nat) (runs : List Run)
    : (ofRuns place runs).length = runs.length := by
  induction runs generalizing place with
  | nil => rfl
  | cons run rest ih => simp [ofRuns, ih]

theorem ofRuns_append (place : Nat) (left right : List Run)
    : ofRuns place (left ++ right) = ofRuns place left ++ ofRuns (place + Run.total left) right := by
  induction left generalizing place with
  | nil => rfl
  | cons run rest ih =>
      simp only [List.cons_append, ofRuns, ih, Run.total_cons, Nat.add_assoc]

theorem take_ofRuns (place : Nat) (left right : List Run)
    : (ofRuns place (left ++ right)).take left.length = ofRuns place left := by
  rw [ofRuns_append, List.take_left' (length_ofRuns place left)]

theorem drop_ofRuns (place : Nat) (left right : List Run)
    : (ofRuns place (left ++ right)).drop left.length
      = ofRuns (place + Run.total left) right := by
  rw [ofRuns_append, List.drop_left' (length_ofRuns place left)]

theorem place_le {place : Nat} {runs : List Run} {start : RunStart}
    (member : start ∈ ofRuns place runs)
    : place ≤ start.place := by
  induction runs generalizing place with
  | nil => simp [ofRuns] at member
  | cons run rest ih =>
      rcases List.mem_cons.mp member with rfl | later
      · exact Nat.le_refl _
      · have := ih later
        omega

/-- Runs that hold bytes start in front of the place where the last one ends. -/
theorem place_lt {place : Nat} {runs : List Run} (filled : Run.Filled runs) {start : RunStart}
    (member : start ∈ ofRuns place runs)
    : start.place < place + Run.total runs := by
  induction runs generalizing place with
  | nil => simp [ofRuns] at member
  | cons run rest ih =>
      obtain ⟨notEmpty, filledRest⟩ := List.forall_mem_cons.mp filled
      rw [Run.total_cons]
      rcases List.mem_cons.mp member with rfl | later
      · dsimp only
        omega
      · have := ih filledRest later
        omega

/-- Runs that hold bytes start one behind the other. -/
theorem pairwise_ofRuns (place : Nat) {runs : List Run} (filled : Run.Filled runs)
    : (ofRuns place runs).Pairwise fun start later => start.place < later.place := by
  induction runs generalizing place with
  | nil => exact List.Pairwise.nil
  | cons run rest ih =>
      obtain ⟨notEmpty, filledRest⟩ := List.forall_mem_cons.mp filled
      refine List.pairwise_cons.mpr ⟨fun later member => ?_, ih _ filledRest⟩
      have := place_le member
      dsimp only
      omega

/-- In the table of a row as many starts stand in front of a place between two of its runs as there are
runs in front of it.
-/
theorem partitionPoint?_lt {front : List Run} (filled : Run.Filled front) (place : Nat)
    (back : List Run)
    : partitionPoint? (fun start => start.place < place + Run.total front)
        (ofRuns place (front ++ back))
      = some front.length := by
  rw [ofRuns_append, partitionPoint?_append, length_ofRuns]
  · exact fun start member => decide_eq_true (place_lt filled member)
  · exact fun start member => decide_eq_false (Nat.not_lt.mpr (place_le member))

/-- Up to a place in a run there is one start more than there are runs in front of it. -/
theorem partitionPoint?_le {front : List Run} (filled : Run.Filled front) (place : Nat) (run : Run)
    (back : List Run) {offset : Nat} (inRun : offset < run.length)
    : partitionPoint? (fun start => start.place ≤ place + Run.total front + offset)
        (ofRuns place (front ++ run :: back))
      = some (front.length + 1) := by
  have split : front ++ run :: back = (front ++ [run]) ++ back := by simp
  rw [split, ofRuns_append, partitionPoint?_append, length_ofRuns, List.length_append]
  · rfl
  · intro start member
    rw [ofRuns_append] at member
    refine decide_eq_true ?_
    rcases List.mem_append.mp member with inFront | isRun
    · have := place_lt filled inFront
      omega
    · obtain rfl := List.mem_singleton.mp isRun
      exact Nat.le_add_right _ _
  · intro start member
    have := place_le member
    rw [Run.total_append, Run.total_cons] at this
    refine decide_eq_false ?_
    omega

/-- All starts behind an edit are moved the same way, if words hold the places. -/
theorem mapM_move? {place newSize oldSize : Nat} {runs : List Run} (within : oldSize ≤ place)
    (fits : place + Run.total runs + newSize < UInt64.size)
    : (ofRuns place runs).mapM (move? newSize oldSize)
      = some (ofRuns (place + newSize - oldSize) runs) := by
  induction runs generalizing place with
  | nil => rfl
  | cons run rest ih =>
      rw [Run.total_cons] at fits
      have later : place + run.length + newSize - oldSize = place + newSize - oldSize + run.length := by
        omega
      have moved := ih (by omega : oldSize ≤ place + run.length) (by omega)
      rw [later] at moved
      have grown := Place.add?_eq_some (by omega : place + newSize < UInt64.size)
      have shrunk := Place.sub?_eq_some (by omega : oldSize ≤ place + newSize)
      simp [ofRuns, List.mapM_cons, move?, grown, shrunk, moved]

end RunStart

/-- In a row of three parts the middle one gives way to the new run. -/
theorem RunTable.exchange?_eq {front middle back : List Run} (frontFilled : Run.Filled front)
    (middleFilled : Run.Filled middle) {start stop newSize : Nat}
    (isStart : Run.total front = start) (isStop : start + Run.total middle = stop)
    (grown : stop + Run.total back + newSize < UInt64.size) (anchor sourceSize : Nat)
    : let inserted : List Run := if newSize = 0 then [] else [⟨newSize, anchor, false⟩]
      exchange?
          ⟨RunStart.ofRuns 0 (front ++ (middle ++ back)), stop + Run.total back, sourceSize⟩
          ⟨⟨start, stop⟩, newSize⟩ anchor
        = some
            ⟨RunStart.ofRuns 0 (front ++ (inserted ++ back)), start + newSize + Run.total back,
              sourceSize⟩ := by
  subst isStart isStop
  have first := RunStart.partitionPoint?_lt frontFilled 0 (middle ++ back)
  have last := RunStart.partitionPoint?_lt (frontFilled.append middleFilled) 0 back
  rw [Nat.zero_add] at first
  rw [Nat.zero_add, Run.total_append, List.append_assoc] at last
  have removed : Place.sub? (Run.total front + Run.total middle) (Run.total front) = some _ :=
    Place.sub?_eq_some (Nat.le_add_right _ _)
  have moved := RunStart.mapM_move? (Nat.le_add_left (Run.total middle) (Run.total front)) grown
  have sum := Place.add?_eq_some grown
  have difference :=
    Place.sub?_eq_some
      (by omega
        : Run.total middle ≤ Run.total front + Run.total middle + Run.total back + newSize)
  have kept := RunStart.take_ofRuns 0 front (middle ++ back)
  have dropped := RunStart.drop_ofRuns 0 (front ++ middle) back
  rw [Nat.zero_add, Run.total_append, List.append_assoc] at dropped
  have place
      : Run.total front + Run.total middle + newSize - Run.total middle
        = Run.total front + newSize := by
    omega
  have size
      : Run.total front + Run.total middle + Run.total back + newSize - Run.total middle
        = Run.total front + newSize + Run.total back := by
    omega
  rw [Nat.add_sub_cancel_left] at removed
  rw [place] at moved
  simp only [exchange?, first, last, removed, kept, dropped, moved, sum, difference, size,
    Option.bind_eq_bind, Option.bind_some]
  by_cases nothing : newSize = 0
  · simp [nothing, RunStart.ofRuns_append]
  · simp [nothing, RunStart.ofRuns_append, RunStart.ofRuns]

end TaggedText
