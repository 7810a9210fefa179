import TaggedText.Proofs.PositionMap.Composition
import TaggedText.Proofs.PositionMap.TableEdits

/-!
Where tables of run starts lead. A table takes edits in range like the map that it is kept for, so what
holds of maps holds of tables: a table leads where a plain row of numbers leads that is edited the same
way, the bytes of a replacement lead back to the span that they replaced, and further edits lead through
a fresh table of the text that they were made in.
-/

namespace TaggedText

namespace PositionMap

variable {map : PositionMap} {edits more : List MapEdit}

/-- Edits in range lie in the texts that those before them have left, by induction on the edits. -/
theorem admits_of_inRange (inRange : InRange map.workingSize edits) : map.Admits edits := by
  induction edits generalizing map with
  | nil => trivial
  | cons edit rest ih =>
      obtain ⟨ordered, within, -, inRangeRest⟩ := inRange
      have fits : edit.Fits map := ⟨ordered, within⟩
      exact ⟨fits, ih (workingSize_onMap_eq_sub fits ▸ inRangeRest)⟩

/-- Edits are in range if the first ones are, and the others in the text that these leave. -/
theorem inRange_append
    : InRange map.workingSize (edits ++ more)
      ↔ InRange map.workingSize edits ∧ InRange (map.editAll edits).workingSize more := by
  induction edits generalizing map with
  | nil => simp [InRange, editAll]
  | cons edit rest ih =>
      simp only [List.cons_append, InRange, and_assoc]
      refine and_congr_right fun ordered => and_congr_right fun within => and_congr_right fun _ => ?_
      rw [← workingSize_onMap_eq_sub ⟨ordered, within⟩]
      exact ih

end PositionMap

namespace RunTable

open PositionMap (InRange moveAll?)

variable {size : Nat} {edits more : List MapEdit}

/-- A table that begins anew with a text takes edits in range, and leads where its map leads. -/
theorem editAll?_reset (used : RunTable) (fits : size < UInt64.size) (inRange : InRange size edits)
    : let map := (PositionMap.identity size).editAll edits
      (used.reset size).editAll? edits = some map.runTable
      ∧ map.Regular := by
  rw [reset_eq]
  obtain ⟨edited, regular, -⟩ :=
    (PositionMap.regular_identity fits).editAll?_eq
      ((PositionMap.workingSize_identity size).symm ▸ inRange)
  exact ⟨edited, regular⟩

/-- A table that begins anew with a text and is edited in range leads where the row leads that counts up
to the size of the text and is edited the same way, and from behind the text to its end. The bytes of
each replacement lead where the table before it led from the span that they replaced, wherever later
edits move them.
-/
theorem toSource?_editAll? (used : RunTable) (fits : size < UInt64.size)
    (inRange : InRange size edits)
    : let row := edits.foldl MapEdit.onTable (List.range (size + 1))
      ∃ table,
        (used.reset size).editAll? edits = some table
        ∧ row.length = table.workingSize + 1
        ∧ (∀ position, position ≤ table.workingSize → table.toSource? position = row[position]?)
        ∧ (∀ position, table.workingSize ≤ position → table.toSource? position = some size)
        ∧ ∀ earlier edit later bytes,
            edits = earlier ++ edit :: later
            → moveAll? ⟨edit.span.start, edit.span.start + edit.newSize⟩ later = some bytes
            → ∃ before,
                (used.reset size).editAll? earlier = some before
                ∧ (∀ position,
                  bytes.start ≤ position
                  → position < bytes.stop
                  → table.toSource? position = before.toSource? edit.span.start)
                ∧ table.toSource? bytes.stop = before.toSource? edit.span.stop := by
  intro row
  have inText := (PositionMap.workingSize_identity size).symm ▸ inRange
  have admits := PositionMap.admits_of_inRange inText
  obtain ⟨edited, regular⟩ := editAll?_reset used fits inRange
  let map := (PositionMap.identity size).editAll edits
  have isRow : row = map.table map.workingSize := (PositionMap.table_editAll_identity admits).symm
  refine ⟨map.runTable, edited, ?_, fun position within => ?_, fun position behind => ?_, ?_⟩
  · rw [isRow, PositionMap.length_table, PositionMap.workingSize_runTable]
  · rw [PositionMap.workingSize_runTable] at within
    rw [regular.toSource?_eq, isRow, PositionMap.getElem?_table, if_pos within]
  · rw [regular.toSource?_eq, PositionMap.toSource_editAll_of_le edits position behind]
  · rintro earlier edit later bytes rfl moves
    obtain ⟨inRangeEarlier, -⟩ := PositionMap.inRange_append.mp inText
    rw [PositionMap.workingSize_identity] at inRangeEarlier
    obtain ⟨editedEarlier, regularEarlier⟩ := editAll?_reset used fits inRangeEarlier
    obtain ⟨-, inside, behind⟩ := PositionMap.leadsTo_editAll_append admits moves
    refine ⟨_, editedEarlier, fun position notBefore isInside => ?_, ?_⟩
    · rw [regular.toSource?_eq, regularEarlier.toSource?_eq, inside position notBefore isInside]
    · rw [regular.toSource?_eq, regularEarlier.toSource?_eq, behind]

/-- Further edits in range of an edited table lead through a table that begins anew with the text as it
was by then, and from there through the table as it was.
-/
theorem toSource?_editAll?_through (used : RunTable) (fits : size < UInt64.size)
    (inRange : InRange size (edits ++ more))
    : ∃ table fresh last,
        (used.reset size).editAll? edits = some table
        ∧ (used.reset table.workingSize).editAll? more = some fresh
        ∧ table.editAll? more = some last
        ∧ last.workingSize = fresh.workingSize
        ∧ ∀ position, last.toSource? position = (fresh.toSource? position).bind table.toSource? := by
  have inText := (PositionMap.workingSize_identity size).symm ▸ inRange
  obtain ⟨inRangeFirst, inRangeMore⟩ := PositionMap.inRange_append.mp inText
  rw [PositionMap.workingSize_identity] at inRangeFirst
  obtain ⟨edited, regular⟩ := editAll?_reset used fits inRangeFirst
  obtain ⟨editedFresh, regularFresh⟩ := editAll?_reset used regular.workingFits inRangeMore
  obtain ⟨editedMore, regularMore, -⟩ := regular.editAll?_eq inRangeMore
  obtain ⟨-, through⟩ :=
    (PositionMap.leadsThrough_identity _).editAll (PositionMap.admits_of_inRange inRangeMore)
  refine ⟨_, _, _, edited, editedFresh, editedMore, through.sameSize, fun position => ?_⟩
  rw [regularMore.toSource?_eq, regularFresh.toSource?_eq, Option.bind_some, regular.toSource?_eq,
    through.leads]

end RunTable

end TaggedText
