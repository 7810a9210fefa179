import TaggedText.Proofs.PositionMap.RunTable

/-!
Edits of tables. However often a table of run starts is edited in range, every sum and difference on
the way is a machine word, and what comes of it is the table of the map that is edited the same way.
Its starts stay in order, with no more of them than bytes, nor than one and two for each edit.
-/

namespace TaggedText

namespace PositionMap

/-- The table of a map. -/
def runTable (map : PositionMap) : RunTable where
  starts := RunStart.ofRuns 0 map.runs
  workingSize := map.workingSize
  sourceSize := map.sourceSize

@[simp] theorem workingSize_runTable (map : PositionMap)
    : map.runTable.workingSize = map.workingSize :=
  rfl

/-- A map whose runs all hold bytes, which leads no position back behind a later one, and whose sizes
are machine words.
-/
structure Regular (map : PositionMap) : Prop where
  filled : Run.Filled map.runs
  monotone : ∀ position later, position ≤ later → map.toSource position ≤ map.toSource later
  workingFits : map.workingSize < UInt64.size
  sourceFits : map.sourceSize < UInt64.size

theorem regular_identity {size : Nat} (fits : size < UInt64.size) : (identity size).Regular where
  filled run member := by
    simp only [identity] at member
    split at member
    · simp at member
    · next notEmpty =>
        obtain rfl := List.mem_singleton.mp member
        exact Nat.pos_of_ne_zero notEmpty
  monotone position later inOrder := by
    simp only [toSource_identity]
    omega
  workingFits := by rwa [workingSize_identity]
  sourceFits := fits

/-- Where a position in a run leads. -/
theorem toSource_of_runs {map : PositionMap} {front back : List Run} {run : Run} {offset : Nat}
    (isRow : map.runs = front ++ run :: back) (inRun : offset < run.length)
    : map.toSource (Run.total front + offset) = run.toSource offset := by
  rw [toSource_eq, isRow, Run.entryAt?_append, if_neg (by omega), Nat.add_sub_cancel_left,
    Run.entryAt?_cons, if_pos inRun]
  rfl

namespace Regular

variable {map : PositionMap}

/-- An edit keeps a map regular as long as a word holds the size of the text before bytes are taken
out of it.
-/
theorem onMap (regular : map.Regular) {edit : MapEdit} (fits : edit.Fits map)
    (grown : map.workingSize + edit.newSize < UInt64.size)
    : (edit.onMap map).Regular := by
  have ordered := fits.ordered
  have within : edit.span.start ≤ map.workingSize := Nat.le_trans ordered fits.within
  have size := workingSize_onMap fits
  have stopWithin := fits.within
  refine {
    filled := ?_
    monotone := fun _ _ inOrder =>
      toSource_edit_le within ordered regular.monotone edit.newSize inOrder
    workingFits := by omega
    sourceFits := regular.sourceFits
  }
  have inserted : Run.Filled
      (if edit.newSize = 0 then [] else [⟨edit.newSize, map.toSource edit.span.start, false⟩]) := by
    intro run member
    split at member
    · simp at member
    · next notEmpty =>
        obtain rfl := List.mem_singleton.mp member
        exact Nat.pos_of_ne_zero notEmpty
  exact ((Run.filled_before regular.filled _).append inserted).append
    (Run.filled_after regular.filled _)

theorem toSource_le (regular : map.Regular) (position : Nat)
    : map.toSource position ≤ map.sourceSize :=
  calc map.toSource position
      ≤ map.toSource (max position map.workingSize) :=
        regular.monotone _ _ (Nat.le_max_left _ _)
    _ = map.sourceSize := toSource_of_le (Nat.le_max_right _ _)

-----------------------------------------------------------------------------------------
-- Looking up
-----------------------------------------------------------------------------------------

variable {front back : List Run} {run : Run} {offset : Nat}

/-- Looking up a position finds the run that holds it. -/
theorem index?_eq (regular : map.Regular) (isRow : map.runs = front ++ run :: back)
    (inRun : offset < run.length)
    : map.runTable.index? (Run.total front + offset) = some front.length := by
  have filled := regular.filled
  rw [isRow] at filled
  have inFront : Run.Filled front := fun other member => filled other (by simp [member])
  have found := RunStart.partitionPoint?_le inFront 0 run back inRun
  rw [Nat.zero_add] at found
  simp [RunTable.index?, runTable, isRow, found, Place.sub?]

theorem getElem?_starts (isRow : map.runs = front ++ run :: back)
    : map.runTable.starts[front.length]? = some ⟨Run.total front, run.origin, run.isCopied⟩ := by
  simp [runTable, isRow, RunStart.ofRuns_append, RunStart.ofRuns]

/-- The start of a run leads where the run leads. -/
theorem start_toSource? (regular : map.Regular) (isRow : map.runs = front ++ run :: back)
    (inRun : offset < run.length)
    : RunStart.toSource? ⟨Run.total front, run.origin, run.isCopied⟩ (Run.total front + offset)
      = some (map.toSource (Run.total front + offset)) := by
  have fits := Nat.lt_of_le_of_lt (regular.toSource_le (Run.total front + offset))
    regular.sourceFits
  rw [toSource_of_runs isRow inRun] at fits ⊢
  simp only [RunStart.toSource?, Run.toSource] at fits ⊢
  cases copied : run.isCopied with
  | false => simp
  | true =>
      simp only [copied, if_true] at fits
      simp [Place.sub?, Place.add?_eq_some fits]

/-- A table leads where its map leads, with no sum or difference out of range. -/
theorem toSource?_eq (regular : map.Regular) (position : Nat)
    : map.runTable.toSource? position = some (map.toSource position) := by
  by_cases behind : map.workingSize ≤ position
  · rw [toSource_of_le behind]
    exact if_pos behind
  · obtain ⟨front, run, back, offset, isRow, rfl, inRun⟩ :=
      Run.exists_run_at (Nat.lt_of_not_le behind)
    rw [RunTable.toSource?, workingSize_runTable, if_neg behind, regular.index?_eq isRow inRun]
    simp [getElem?_starts isRow, regular.start_toSource? isRow inRun]

-----------------------------------------------------------------------------------------
-- Edits
-----------------------------------------------------------------------------------------

theorem runTable_edit_nothing {position : Nat} (within : position ≤ map.workingSize)
    : (map.edit ⟨position, position⟩ 0).runTable
      = { map.runTable with
          starts :=
            RunStart.ofRuns 0
              (Run.before map.runs position ++ Run.after map.runs position) } := by
  have sameSize : (map.edit ⟨position, position⟩ 0).workingSize = map.workingSize := by
    rw [workingSize_edit position 0 within]
    omega
  simp only [runTable, sameSize, sourceSize_edit]
  simp [edit]

/-- No run is cut at either end of the text. -/
theorem before_append_after_of_end (regular : map.Regular) {position : Nat}
    (atEnd : position = 0 ∨ position = map.workingSize)
    : Run.before map.runs position ++ Run.after map.runs position = map.runs := by
  rcases atEnd with rfl | rfl
  · rw [Run.before_zero, Run.after_zero, List.nil_append]
  · have before := Run.before_append regular.filled [] 0
    have after := Run.after_append regular.filled [] 0
    simp only [List.append_nil, Nat.add_zero, Run.before_zero, Run.after_zero] at before after
    rw [workingSize, before, after, List.append_nil]

/-- Splitting a table is an edit of its map that changes no byte. -/
theorem split?_eq (regular : map.Regular) {position : Nat} (within : position ≤ map.workingSize)
    : map.runTable.split? position = some (map.edit ⟨position, position⟩ 0).runTable := by
  rw [runTable_edit_nothing within]
  by_cases atEnd : position = 0 ∨ map.workingSize ≤ position
  · rw [RunTable.split?, workingSize_runTable, if_pos atEnd, before_append_after_of_end regular]
    · rfl
    · omega
  · have inside : position < Run.total map.runs :=
      Nat.lt_of_not_le fun behind => atEnd (.inr behind)
    obtain ⟨front, run, back, offset, isRow, rfl, inRun⟩ := Run.exists_run_at inside
    have filled := regular.filled
    rw [isRow] at filled
    have fewer := Run.length_le_total regular.filled
    have sizeFits := regular.workingFits
    have next : Place.add? front.length 1 = some (front.length + 1) := by
      refine Place.add?_eq_some ?_
      simp only [workingSize, isRow, List.length_append, List.length_cons] at fewer sizeFits
      omega
    have leads := regular.start_toSource? isRow inRun
    rw [toSource_of_runs isRow inRun] at leads
    rw [RunTable.split?, workingSize_runTable, if_neg atEnd, regular.index?_eq isRow inRun]
    simp only [Option.bind_eq_bind, Option.bind_some, getElem?_starts isRow, leads, next]
    rw [isRow, Run.cut_eq (fun other member => filled other (by simp [member])) run back inRun]
    by_cases atStart : offset = 0
    · simp [atStart, runTable, isRow]
    · have rest : Run.total front + offset + (run.length - offset) = Run.total front + run.length := by
        omega
      have inserted :=
        insertIdx_behind (RunStart.ofRuns 0 front) ⟨Run.total front, run.origin, run.isCopied⟩
          ⟨Run.total front + offset, run.toSource offset, run.isCopied⟩
          (RunStart.ofRuns (Run.total front + run.length) back)
      rw [RunStart.length_ofRuns] at inserted
      rw [if_neg (by omega), if_neg atStart]
      simp [runTable, isRow, RunStart.ofRuns_append, RunStart.ofRuns, Run.drop, inserted, rest]

/-- Splitting a table at both ends of a span leaves three parts of the row. -/
theorem exists_split_twice (regular : map.Regular) {start stop : Nat} (ordered : start ≤ stop)
    (within : stop ≤ map.workingSize)
    : ∃ table,
        map.runTable.split? start = some table
        ∧ table.split? stop
          = some
              ⟨RunStart.ofRuns 0
                  (Run.before map.runs start
                    ++ (Run.before (Run.after map.runs start) (stop - start)
                      ++ Run.after map.runs stop)),
                map.workingSize, map.sourceSize⟩ := by
  have startWithin : start ≤ map.workingSize := Nat.le_trans ordered within
  have sameSize : (map.edit ⟨start, start⟩ 0).workingSize = map.workingSize := by
    rw [workingSize_edit start 0 startWithin]
    omega
  let nothing : MapEdit := ⟨⟨start, start⟩, 0⟩
  have nothingFits : nothing.Fits map := ⟨Nat.le_refl _, startWithin⟩
  have splitRegular : (map.edit ⟨start, start⟩ 0).Regular :=
    regular.onMap nothingFits regular.workingFits
  have place : stop = Run.total (Run.before map.runs start) + (stop - start) := by
    rw [Run.total_before startWithin]
    omega
  have front := Run.filled_before regular.filled start
  have before := Run.before_append front (Run.after map.runs start) (stop - start)
  have after := Run.after_append front (Run.after map.runs start) (stop - start)
  rw [← place] at before after
  rw [Run.after_after, Nat.add_sub_cancel' ordered] at after
  refine ⟨_, regular.split?_eq startWithin, ?_⟩
  rw [splitRegular.split?_eq (sameSize ▸ within), runTable_edit_nothing (sameSize ▸ within)]
  simp only [runTable, sameSize, sourceSize_edit]
  simp only [edit, if_true, List.append_nil, before, after, List.append_assoc]

/-- Editing the table of a map is editing the map, with no sum or difference out of range. Both splits
leave the row in three parts, the middle one of which gives way to the new run.
-/
theorem edit?_eq (regular : map.Regular) {edit : MapEdit} (fits : edit.Fits map)
    (grown : map.workingSize + edit.newSize < UInt64.size)
    : map.runTable.edit? edit = some (edit.onMap map).runTable := by
  obtain ⟨⟨start, stop⟩, newSize⟩ := edit
  obtain ⟨ordered, stopWithin⟩ := fits
  dsimp only at ordered stopWithin grown
  have startWithin : start ≤ map.workingSize := Nat.le_trans ordered stopWithin
  obtain ⟨table, splits, splitsAgain⟩ := regular.exists_split_twice ordered stopWithin
  have middleTotal
      : Run.total (Run.before (Run.after map.runs start) (stop - start)) = stop - start := by
    refine Run.total_before ?_
    rw [Run.total_after]
    exact Nat.sub_le_sub_right stopWithin start
  have backTotal : stop + Run.total (Run.after map.runs stop) = map.workingSize := by
    rw [Run.total_after]
    exact Nat.add_sub_cancel' stopWithin
  have exchanged :=
    RunTable.exchange?_eq (Run.filled_before regular.filled start)
      (Run.filled_before (Run.filled_after regular.filled start) (stop - start))
      (Run.total_before startWithin) (by omega) (backTotal ▸ grown) (map.toSource start)
      map.sourceSize
  rw [backTotal] at exchanged
  have editSize := workingSize_edit stop newSize startWithin
  rw [RunTable.edit?, workingSize_runTable, if_pos ⟨ordered, stopWithin⟩]
  simp only [regular.toSource?_eq, splits, splitsAgain, Option.bind_eq_bind, Option.bind_some]
  rw [exchanged]
  simp only [runTable, MapEdit.onMap, editSize, Run.total_after, sourceSize_edit]
  simp [edit, workingSize]

end Regular

-----------------------------------------------------------------------------------------
-- Edits on and on
-----------------------------------------------------------------------------------------

/-- Whether each of some edits lies in a working text, which has some size at first, and words hold the
sizes of the text and of the new bytes together.
-/
def InRange : Nat → List MapEdit → Prop
  | _, [] => True
  | size, edit :: rest =>
      edit.span.start ≤ edit.span.stop
      ∧ edit.span.stop ≤ size
      ∧ size + edit.newSize < UInt64.size
      ∧ InRange (size + edit.newSize - edit.span.length) rest

instance InRange.decidable
    : (size : Nat) → (edits : List MapEdit) → Decidable (InRange size edits)
  | _, [] => inferInstanceAs (Decidable True)
  | size, edit :: rest =>
      have := InRange.decidable (size + edit.newSize - edit.span.length) rest
      inferInstanceAs (Decidable (_ ∧ _ ∧ _ ∧ _))

/-- An edit cuts one run in two at most and puts one in. -/
theorem length_runs_onMap (map : PositionMap) {edit : MapEdit}
    (ordered : edit.span.start ≤ edit.span.stop)
    : (edit.onMap map).runs.length ≤ map.runs.length + 2 := by
  have parts := Run.length_before_add_length_after map.runs ordered
  simp only [MapEdit.onMap, PositionMap.edit, List.length_append]
  split <;> simp <;> omega

/-- An edit leaves a text of the size from which the range of the next edit is told. -/
theorem workingSize_onMap_eq_sub {map : PositionMap} {edit : MapEdit} (fits : edit.Fits map)
    : (edit.onMap map).workingSize = map.workingSize + edit.newSize - edit.span.length := by
  have size := workingSize_onMap fits
  obtain ⟨ordered, within⟩ := fits
  simp only [size, Span.length]
  omega

/-- Editing a table on and on edits its map, and each edit makes two more runs at most, by induction on
the edits.
-/
theorem Regular.editAll?_eq {map : PositionMap} (regular : map.Regular) {edits : List MapEdit}
    (inRange : InRange map.workingSize edits)
    : map.runTable.editAll? edits = some (map.editAll edits).runTable
      ∧ (map.editAll edits).Regular
      ∧ (map.editAll edits).runs.length ≤ map.runs.length + 2 * edits.length := by
  induction edits generalizing map with
  | nil => exact ⟨rfl, regular, Nat.le_refl _⟩
  | cons edit rest ih =>
      obtain ⟨ordered, within, grown, inRangeRest⟩ := inRange
      have fits : edit.Fits map := ⟨ordered, within⟩
      obtain ⟨edited, regularLater, fewer⟩ :=
        ih (regular.onMap fits grown) (workingSize_onMap_eq_sub fits ▸ inRangeRest)
      refine ⟨?_, regularLater, ?_⟩
      · simp only [RunTable.editAll?, List.foldlM_cons, regular.edit?_eq fits grown,
          Option.bind_eq_bind, Option.bind_some]
        exact edited
      · have := length_runs_onMap map ordered
        simp only [List.length_cons]
        exact Nat.le_trans fewer (by omega)

end PositionMap

namespace RunTable

/-- A table whose starts ascend inside the working text, from its front on. -/
structure InOrder (table : RunTable) : Prop where
  ascending : table.starts.Pairwise fun start later => start.place < later.place
  inside : ∀ start ∈ table.starts, start.place < table.workingSize
  atFront : 0 < table.workingSize → table.starts.head?.map (·.place) = some 0
  nothing : table.workingSize = 0 → table.starts = []

theorem inOrder_runTable {map : PositionMap} (filled : Run.Filled map.runs)
    : map.runTable.InOrder := by
  refine ⟨RunStart.pairwise_ofRuns 0 filled, fun start member => ?_, fun notEmpty => ?_,
    fun isEmpty => ?_⟩
  · have := RunStart.place_lt filled member
    rwa [Nat.zero_add] at this
  · cases isRow : map.runs with
    | nil => simp [PositionMap.workingSize, isRow] at notEmpty
    | cons run rest => simp [PositionMap.runTable, isRow, RunStart.ofRuns]
  · have fewer := Run.length_le_total filled
    have noRun : map.runs = [] := List.eq_nil_of_length_eq_zero (by
      simp only [PositionMap.workingSize_runTable, PositionMap.workingSize] at isEmpty
      omega)
    simp [PositionMap.runTable, noRun, RunStart.ofRuns]

/-- A table that begins anew is that of a map that changes nothing. -/
theorem reset_eq (table : RunTable) (size : Nat)
    : table.reset size = (PositionMap.identity size).runTable := by
  rw [PositionMap.runTable, PositionMap.workingSize_identity]
  simp only [reset, PositionMap.identity]
  split <;> rfl

/-- A table that is new or begins anew with a text takes any number of edits in range without a sum or
difference out of the range of words, and is the table of the map after them. Its starts are in order,
and there are no more of them than bytes, nor than one and two for each edit. Every position inside the
text has a run, so looking one up goes wrong nowhere, and positions lead on in order up to the end of
the source.
-/
theorem editAll?_of_inRange {begun : RunTable} {size : Nat} {edits : List MapEdit}
    (begins : begun = {} ∧ size = 0 ∨ ∃ used : RunTable, begun = used.reset size)
    (fits : size < UInt64.size) (inRange : PositionMap.InRange size edits)
    : let map := (PositionMap.identity size).editAll edits
      let table := map.runTable
      begun.editAll? edits = some table
      ∧ table.InOrder
      ∧ table.starts.length ≤ min table.workingSize (2 * edits.length + 1)
      ∧ (∀ position,
          position < table.workingSize
          → ∃ index, table.index? position = some index ∧ index < table.starts.length)
      ∧ (∀ position, table.toSource? position = some (map.toSource position))
      ∧ (∀ position later, position ≤ later → map.toSource position ≤ map.toSource later)
      ∧ (∀ position, map.toSource position ≤ size)
      ∧ ∀ position, table.workingSize ≤ position → map.toSource position = size := by
  intro map table
  have begunTable : begun = (PositionMap.identity size).runTable := by
    rcases begins with ⟨rfl, rfl⟩ | ⟨used, rfl⟩
    · rfl
    · exact reset_eq used size
  have regular := PositionMap.regular_identity fits
  obtain ⟨edited, regularLater, fewer⟩ :=
    regular.editAll?_eq ((PositionMap.workingSize_identity size).symm ▸ inRange)
  have sourceSize : map.sourceSize = size := PositionMap.sourceSize_editAll _ edits
  refine ⟨begunTable ▸ edited, inOrder_runTable regularLater.filled, ?_, fun position inside => ?_,
    regularLater.toSource?_eq, regularLater.monotone, fun position => ?_, fun position behind => ?_⟩
  · have starts : table.starts.length = map.runs.length := RunStart.length_ofRuns 0 map.runs
    have oneAtFirst : (PositionMap.identity size).runs.length ≤ 1 := by
      simp only [PositionMap.identity]
      split <;> simp
    rw [starts]
    exact Nat.le_min.mpr ⟨Run.length_le_total regularLater.filled, Nat.le_trans fewer (by omega)⟩
  · obtain ⟨front, run, back, offset, isRow, rfl, inRun⟩ := Run.exists_run_at inside
    refine ⟨front.length, regularLater.index?_eq isRow inRun, ?_⟩
    simp [table, PositionMap.runTable, map, isRow]
  · exact sourceSize ▸ regularLater.toSource_le position
  · exact sourceSize ▸ PositionMap.toSource_of_le behind

/-- A text as large as a word can tell is taken out and in again, with an edit in between that puts
nothing in the place of nothing and yet makes one run two.
-/
theorem editAll?_of_inRange_of_largest_text
    : let size := UInt64.size - 4
      let edits : List MapEdit :=
        [⟨⟨0, size⟩, 3⟩, ⟨⟨0, 3⟩, 0⟩, ⟨⟨0, 0⟩, size⟩, ⟨⟨7, 7⟩, 0⟩, ⟨⟨0, 1⟩, 3⟩, ⟨⟨9, 9⟩, 1⟩]
      let table : RunTable := {
        starts := [⟨0, size, false⟩, ⟨3, size, false⟩, ⟨9, size, false⟩, ⟨10, size, false⟩]
        workingSize := size + 3
        sourceSize := size
      }
      size < UInt64.size
      ∧ PositionMap.InRange size edits
      ∧ (RunTable.reset {} size).editAll? edits = some table
      ∧ table.toSource? (UInt64.size - 1) = some size := by
  intro size edits table
  have fits : size < UInt64.size := by decide
  have inRange : PositionMap.InRange size edits := by decide
  obtain ⟨edited, -, -, -, leads, -, -, behind⟩ :=
    editAll?_of_inRange (.inr ⟨{}, rfl⟩) fits inRange
  have isTable : ((PositionMap.identity size).editAll edits).runTable = table := by decide
  refine ⟨fits, inRange, edited.trans (congrArg some isTable), ?_⟩
  rw [← isTable, leads, behind _ (by decide)]

end RunTable

end TaggedText
