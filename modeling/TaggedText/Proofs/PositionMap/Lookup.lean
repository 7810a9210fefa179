import TaggedText.PositionMap

/-!
Looking up positions of an edited map. A map is known by its sizes and by what it says of each
position, and an edit changes these like an edit of a table with one entry for each position:
entries before the span stay, the new bytes repeat the entry where the span starts, and entries
behind the span move.
-/

namespace TaggedText

namespace Run

/-- What a row says of a byte: its source position, and whether it was copied from there. -/
def entryAt? (runs : List Run) (position : Nat) : Option (Nat × Bool) :=
  (find? runs position).map fun (run, offset) => (run.toSource offset, run.isCopied)

@[simp] theorem entryAt?_nil (position : Nat) : entryAt? [] position = none := rfl

theorem entryAt?_cons (run : Run) (rest : List Run) (position : Nat)
    : entryAt? (run :: rest) position
      = if position < run.length then some (run.toSource position, run.isCopied)
        else entryAt? rest (position - run.length) := by
  simp only [entryAt?, find?]
  split <;> rfl

@[simp] theorem total_nil : total [] = 0 := rfl

@[simp] theorem total_cons (run : Run) (rest : List Run)
    : total (run :: rest) = run.length + total rest :=
  rfl

@[simp] theorem total_append (left right : List Run)
    : total (left ++ right) = total left + total right := by
  induction left with
  | nil => simp
  | cons run rest ih => simp only [List.cons_append, total_cons, ih]; omega

/-- Exactly the bytes of a row have entries, by induction on the row. -/
theorem entryAt?_eq_none {runs : List Run} {position : Nat}
    : entryAt? runs position = none ↔ total runs ≤ position := by
  induction runs generalizing position with
  | nil => simp
  | cons run rest ih =>
      rw [entryAt?_cons, total_cons]
      split
      · simp only [reduceCtorEq, false_iff]; omega
      · rw [ih]; omega

theorem entryAt?_append (left right : List Run) (position : Nat)
    : entryAt? (left ++ right) position
      = if position < total left then entryAt? left position
        else entryAt? right (position - total left) := by
  induction left generalizing position with
  | nil => simp
  | cons run rest ih =>
      rw [List.cons_append, entryAt?_cons, entryAt?_cons, total_cons, ih]
      by_cases inHead : position < run.length
      · rw [if_pos inHead, if_pos (by omega), if_pos inHead]
      · rw [if_neg inHead, if_neg inHead]
        by_cases inRest : position - run.length < total rest
        · rw [if_pos inRest, if_pos (by omega)]
        · rw [if_neg inRest, if_neg (by omega), Nat.sub_sub]

theorem total_before {runs : List Run} {position : Nat} (within : position ≤ total runs)
    : total (before runs position) = position := by
  induction runs generalizing position with
  | nil =>
      have start : position = 0 := by simpa using within
      rw [start]
      rfl
  | cons run rest ih =>
      rw [total_cons] at within
      simp only [before]
      split
      · simp_all
      · split
        · simp
        · rw [total_cons, ih (by omega)]; omega

theorem total_after (runs : List Run) (position : Nat)
    : total (after runs position) = total runs - position := by
  induction runs generalizing position with
  | nil => simp [after]
  | cons run rest ih =>
      simp only [after]
      split
      · next start => simp [start]
      · split
        · next inHead => simp only [total_cons, drop]; omega
        · rw [ih, total_cons]; omega

/-- A row cut off behind a byte still says the same of the byte. -/
theorem entryAt?_before {runs : List Run} {position stop : Nat} (inFront : position < stop)
    : entryAt? (before runs stop) position = entryAt? runs position := by
  induction runs generalizing position stop with
  | nil => rfl
  | cons run rest ih =>
      simp only [before]
      rw [if_neg (by omega)]
      split
      · rw [entryAt?_cons, entryAt?_cons, if_pos inFront, if_pos (by omega)]
        rfl
      · rw [entryAt?_cons, entryAt?_cons]
        split
        · rfl
        · exact ih (by omega)

theorem toSource_drop (run : Run) (offset position : Nat)
    : (run.drop offset).toSource position = run.toSource (offset + position) := by
  simp only [toSource, drop]
  split <;> omega

/-- A row from one of its bytes on says of each byte what the whole row says of it. -/
theorem entryAt?_after (runs : List Run) (start position : Nat)
    : entryAt? (after runs start) position = entryAt? runs (start + position) := by
  induction runs generalizing start with
  | nil => rfl
  | cons run rest ih =>
      simp only [after]
      split
      · next isStart => rw [isStart, Nat.zero_add]
      · split
        · next inHead =>
            rw [entryAt?_cons, entryAt?_cons, toSource_drop]
            have length : (run.drop start).length = run.length - start := rfl
            by_cases alsoInHead : start + position < run.length
            · rw [if_pos (by omega), if_pos alsoInHead]
              rfl
            · rw [if_neg (by omega), if_neg alsoInHead, length]
              congr 1
              omega
        · rw [ih, entryAt?_cons, if_neg (by omega)]
          congr 1
          omega

end Run

namespace PositionMap

theorem toSource_eq (map : PositionMap) (position : Nat)
    : map.toSource position
      = ((Run.entryAt? map.runs position).map (·.1)).getD map.sourceSize := by
  simp only [toSource, Run.entryAt?]
  cases Run.find? map.runs position <;> rfl

theorem isCopied_eq (map : PositionMap) (position : Nat)
    : map.isCopied position = ((Run.entryAt? map.runs position).map (·.2)).getD false := by
  simp only [isCopied, Run.entryAt?]
  cases Run.find? map.runs position <;> rfl

@[simp] theorem sourceSize_edit (map : PositionMap) (span : Span) (newSize : Nat)
    : (map.edit span newSize).sourceSize = map.sourceSize :=
  rfl

theorem workingSize_edit {map : PositionMap} {start : Nat} (stop newSize : Nat)
    (within : start ≤ map.workingSize)
    : (map.edit ⟨start, stop⟩ newSize).workingSize
      = start + newSize + (map.workingSize - stop) := by
  simp only [edit, workingSize, Run.total_append, Run.total_after] at within ⊢
  rw [Run.total_before within]
  split <;> simp_all

/-- The entries of an edited map are those of the edited table of entries. -/
theorem entryAt?_edit {map : PositionMap} {start : Nat} (stop newSize position : Nat)
    (within : start ≤ map.workingSize)
    : Run.entryAt? (map.edit ⟨start, stop⟩ newSize).runs position
      = if position < start then Run.entryAt? map.runs position
        else if position < start + newSize then some (map.toSource start, false)
        else Run.entryAt? map.runs (stop + (position - (start + newSize))) := by
  have front : Run.total (Run.before map.runs start) = start := Run.total_before within
  simp only [edit]
  rw [List.append_assoc, Run.entryAt?_append, front]
  by_cases inFront : position < start
  · rw [if_pos inFront, if_pos inFront, Run.entryAt?_before inFront]
  · rw [if_neg inFront, if_neg inFront, Run.entryAt?_append]
    by_cases isEmpty : newSize = 0
    · subst newSize
      rw [if_pos rfl, Run.total_nil, if_neg (by omega), if_neg (by omega), Run.entryAt?_after]
      rfl
    · rw [if_neg isEmpty, Run.total_cons, Run.total_nil, Nat.add_zero]
      dsimp only
      by_cases isNew : position < start + newSize
      · rw [if_pos (by omega), if_pos isNew, Run.entryAt?_cons, if_pos (by dsimp only; omega)]
        rfl
      · rw [if_neg (by omega), if_neg isNew, Run.entryAt?_after]
        congr 1
        omega

/-- Where an edited map leads: as before in front of the span, to where the start of the span led
from the new bytes, and as before at the place where the span would still be behind them.
-/
theorem toSource_edit {map : PositionMap} {start : Nat} (stop newSize position : Nat)
    (within : start ≤ map.workingSize)
    : (map.edit ⟨start, stop⟩ newSize).toSource position
      = if position < start then map.toSource position
        else if position < start + newSize then map.toSource start
        else map.toSource (stop + (position - (start + newSize))) := by
  rw [toSource_eq, entryAt?_edit stop newSize position within, sourceSize_edit]
  split
  · rw [toSource_eq]
  · split
    · rfl
    · rw [toSource_eq]

/-- An edited map leads no position back, if the map did not. -/
theorem toSource_edit_le {map : PositionMap} {span : Span} (within : span.start ≤ map.workingSize)
    (ordered : span.start ≤ span.stop)
    (monotone : ∀ position later, position ≤ later → map.toSource position ≤ map.toSource later)
    (newSize : Nat) {position later : Nat} (inOrder : position ≤ later)
    : (map.edit span newSize).toSource position ≤ (map.edit span newSize).toSource later := by
  rw [toSource_edit span.stop newSize position within,
    toSource_edit span.stop newSize later within]
  by_cases inFront : position < span.start
  · rw [if_pos inFront]
    split
    · exact monotone _ _ inOrder
    · split <;> exact monotone _ _ (by omega)
  · rw [if_neg inFront, if_neg (by omega : ¬ later < span.start)]
    by_cases isNew : position < span.start + newSize
    · rw [if_pos isNew]
      split <;> exact monotone _ _ (by omega)
    · rw [if_neg isNew, if_neg (by omega)]
      exact monotone _ _ (by omega)

/-- Which bytes an edited map takes for copied: the old ones outside the span, moved. -/
theorem isCopied_edit {map : PositionMap} {start : Nat} (stop newSize position : Nat)
    (within : start ≤ map.workingSize)
    : (map.edit ⟨start, stop⟩ newSize).isCopied position
      = if position < start then map.isCopied position
        else if position < start + newSize then false
        else map.isCopied (stop + (position - (start + newSize))) := by
  rw [isCopied_eq, entryAt?_edit stop newSize position within]
  split
  · rw [isCopied_eq]
  · split
    · rfl
    · rw [isCopied_eq]

-----------------------------------------------------------------------------------------
-- Maps of unedited texts
-----------------------------------------------------------------------------------------

@[simp] theorem workingSize_identity (size : Nat) : (identity size).workingSize = size := by
  simp only [identity, workingSize]
  split <;> simp_all

/-- Unedited text leads to itself, and what lies behind it leads to its end. -/
theorem toSource_identity (size position : Nat)
    : (identity size).toSource position = min position size := by
  rw [toSource_eq]
  simp only [identity]
  split
  · simp only [Run.entryAt?_nil, Option.map_none, Option.getD_none]
    omega
  · rw [Run.entryAt?_cons]
    dsimp only
    split
    · simp only [Run.toSource, Option.map_some, Option.getD_some, if_true]
      omega
    · simp only [Run.entryAt?_nil, Option.map_none, Option.getD_none]
      omega

end PositionMap

end TaggedText
