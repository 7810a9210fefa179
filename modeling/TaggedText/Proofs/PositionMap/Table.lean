import TaggedText.Proofs.PositionMap.Lookup

/-!
Maps against tables. A table has one entry for every position of a working text, its end included,
and an edit exchanges the entries of a span for copies of the entry at its start. However often a
map is edited, it leads where the table leads that is edited the same way, and the bytes that
replace a span lead back to all of it for as long as they are there.
-/

namespace TaggedText

/-- A number of new bytes in place of a span of a working text. -/
structure MapEdit where
  span : Span
  newSize : Nat
deriving DecidableEq, Repr

namespace MapEdit

/-- A map after an edit. -/
def onMap (map : PositionMap) (edit : MapEdit) : PositionMap :=
  map.edit edit.span edit.newSize

/-- A table after an edit: the entries of the span give way to copies of the entry at its start. -/
def onTable (table : List Nat) (edit : MapEdit) : List Nat :=
  table.take edit.span.start
    ++ (List.replicate edit.newSize (table[edit.span.start]?.getD 0) ++ table.drop edit.span.stop)

/-- Whether an edit lies in the working text of a map. -/
structure Fits (map : PositionMap) (edit : MapEdit) : Prop where
  ordered : edit.span.start ≤ edit.span.stop
  within : edit.span.stop ≤ map.workingSize

instance (map : PositionMap) (edit : MapEdit) : Decidable (edit.Fits map) :=
  decidable_of_iff (edit.span.start ≤ edit.span.stop ∧ edit.span.stop ≤ map.workingSize)
    ⟨fun both => ⟨both.1, both.2⟩, fun fits => ⟨fits.ordered, fits.within⟩⟩

/-- Where some bytes are after an edit that is made in front of them, inside them or behind them.
A deletion right behind them is none of these, as the place behind them then leads further on.
-/
def move? (bytes : Span) (edit : MapEdit) : Option Span :=
  if edit.span.stop ≤ bytes.start then
    some ⟨bytes.start - edit.span.length + edit.newSize,
      bytes.stop - edit.span.length + edit.newSize⟩
  else if bytes.start ≤ edit.span.start ∧ edit.span.start < bytes.stop
      ∧ edit.span.stop ≤ bytes.stop then
    some ⟨bytes.start, bytes.stop - edit.span.length + edit.newSize⟩
  else if bytes.stop < edit.span.start ∨ bytes.stop = edit.span.start ∧ 0 < edit.newSize then
    some bytes
  else none

end MapEdit

namespace PositionMap

/-- A map after some edits in order. -/
def editAll (map : PositionMap) (edits : List MapEdit) : PositionMap :=
  edits.foldl MapEdit.onMap map

/-- Whether each of some edits lies in the working text that those before it have left. -/
def Admits : PositionMap → List MapEdit → Prop
  | _, [] => True
  | map, edit :: rest => edit.Fits map ∧ Admits (edit.onMap map) rest

instance Admits.decidable
    : (map : PositionMap) → (edits : List MapEdit) → Decidable (map.Admits edits)
  | _, [] => inferInstanceAs (Decidable True)
  | map, edit :: rest =>
      have := Admits.decidable (edit.onMap map) rest
      inferInstanceAs (Decidable (edit.Fits map ∧ Admits (edit.onMap map) rest))

theorem admits_append {map : PositionMap} {edits more : List MapEdit}
    : map.Admits (edits ++ more) ↔ map.Admits edits ∧ (map.editAll edits).Admits more := by
  induction edits generalizing map with
  | nil => simp [Admits, editAll]
  | cons edit rest ih =>
      simp only [List.cons_append, Admits, ih, editAll, List.foldl_cons, and_assoc]

theorem editAll_append (map : PositionMap) (edits more : List MapEdit)
    : map.editAll (edits ++ more) = (map.editAll edits).editAll more :=
  List.foldl_append

-----------------------------------------------------------------------------------------
-- Tables
-----------------------------------------------------------------------------------------

/-- The end of the working text and all that lies behind it lead to the end of the source. -/
theorem toSource_of_le {map : PositionMap} {position : Nat} (behind : map.workingSize ≤ position)
    : map.toSource position = map.sourceSize := by
  rw [toSource_eq, Run.entryAt?_eq_none.mpr behind]
  rfl

theorem getElem?_table (map : PositionMap) (last position : Nat)
    : (map.table last)[position]?
      = if position ≤ last then some (map.toSource position) else none := by
  simp only [table, List.getElem?_map]
  by_cases within : position ≤ last
  · rw [if_pos within, List.getElem?_range (by omega)]
    rfl
  · rw [if_neg within, List.getElem?_eq_none (by simp; omega)]
    rfl

theorem length_table (map : PositionMap) (last : Nat) : (map.table last).length = last + 1 := by
  simp [table]

theorem table_identity (size : Nat) : (identity size).table size = List.range (size + 1) := by
  refine (List.map_congr_left fun position member => ?_).trans (List.map_id _)
  have within := List.mem_range.mp member
  rw [toSource_identity]
  exact Nat.min_eq_left (by omega)

/-- Looking up an edited table is looking up the old one: in the same place in front of the span, at
its start for the new entries, and in the place that has moved behind them.
-/
theorem getElem?_onTable {table : List Nat} {edit : MapEdit} (position : Nat)
    (within : edit.span.start < table.length)
    : (edit.onTable table)[position]?
      = if position < edit.span.start then table[position]?
        else if position < edit.span.start + edit.newSize then table[edit.span.start]?
        else table[edit.span.stop + (position - (edit.span.start + edit.newSize))]? := by
  have front : (table.take edit.span.start).length = edit.span.start := by
    rw [List.length_take]
    exact Nat.min_eq_left (Nat.le_of_lt within)
  rw [MapEdit.onTable]
  by_cases inFront : position < edit.span.start
  · rw [if_pos inFront, List.getElem?_append_left (by omega), List.getElem?_take, if_pos inFront]
  · rw [if_neg inFront, List.getElem?_append_right (by omega), front]
    by_cases isNew : position < edit.span.start + edit.newSize
    · rw [if_pos isNew, List.getElem?_append_left (by rw [List.length_replicate]; omega),
        List.getElem?_replicate, if_pos (by omega), List.getElem?_eq_getElem within]
      rfl
    · rw [if_neg isNew, List.getElem?_append_right (by rw [List.length_replicate]; omega),
        List.length_replicate, List.getElem?_drop, Nat.sub_sub]

/-- An edit leaves what is in front of its span and behind it, and the new bytes. -/
theorem workingSize_onMap {map : PositionMap} {edit : MapEdit} (fits : edit.Fits map)
    : (edit.onMap map).workingSize
      = edit.span.start + edit.newSize + (map.workingSize - edit.span.stop) :=
  workingSize_edit edit.span.stop edit.newSize (Nat.le_trans fits.ordered fits.within)

/-- Editing a map edits its table. -/
theorem table_edit {map : PositionMap} {edit : MapEdit} (fits : edit.Fits map)
    : (edit.onMap map).table (edit.onMap map).workingSize
      = edit.onTable (map.table map.workingSize) := by
  have ordered := fits.ordered
  have within := fits.within
  have startWithin : edit.span.start ≤ map.workingSize := Nat.le_trans ordered within
  have size := workingSize_onMap fits
  apply List.ext_getElem?
  intro position
  have leads : (edit.onMap map).toSource position = _ :=
    toSource_edit edit.span.stop edit.newSize position startWithin
  rw [getElem?_onTable position (by rw [length_table]; omega), getElem?_table, leads, size]
  simp only [getElem?_table]
  by_cases inFront : position < edit.span.start
  · rw [if_pos inFront, if_pos inFront, if_pos (by omega), if_pos (by omega)]
  · rw [if_neg inFront, if_neg inFront]
    by_cases isNew : position < edit.span.start + edit.newSize
    · rw [if_pos isNew, if_pos isNew, if_pos (by omega), if_pos startWithin]
    · rw [if_neg isNew, if_neg isNew]
      congr 1
      simp only [eq_iff_iff]
      omega

/-- Editing a map over and over edits its table the same way, by induction on the edits. -/
theorem table_editAll {map : PositionMap} {edits : List MapEdit} (admits : map.Admits edits)
    : (map.editAll edits).table (map.editAll edits).workingSize
      = edits.foldl MapEdit.onTable (map.table map.workingSize) := by
  induction edits generalizing map with
  | nil => rfl
  | cons edit rest ih =>
      obtain ⟨fits, admitsRest⟩ := admits
      rw [List.foldl_cons, ← table_edit fits]
      exact ih admitsRest

theorem sourceSize_editAll (map : PositionMap) (edits : List MapEdit)
    : (map.editAll edits).sourceSize = map.sourceSize := by
  induction edits generalizing map with
  | nil => rfl
  | cons edit rest ih => exact ih (edit.onMap map)

-----------------------------------------------------------------------------------------
-- Bytes that replace a span
-----------------------------------------------------------------------------------------

/-- Some bytes lead to the start of a span of the source, and the place behind them to its stop. -/
structure LeadsTo (map : PositionMap) (bytes target : Span) : Prop where
  ordered : bytes.start ≤ bytes.stop
  inside : ∀ position, bytes.start ≤ position → position < bytes.stop
    → map.toSource position = target.start
  behind : map.toSource bytes.stop = target.stop

/-- New bytes lead to where the span that they replace led. -/
theorem leadsTo_edit {map : PositionMap} {edit : MapEdit} (fits : edit.Fits map)
    : (edit.onMap map).LeadsTo ⟨edit.span.start, edit.span.start + edit.newSize⟩
        ⟨map.toSource edit.span.start, map.toSource edit.span.stop⟩ := by
  have startWithin : edit.span.start ≤ map.workingSize := Nat.le_trans fits.ordered fits.within
  have leads (position : Nat) :=
    toSource_edit edit.span.stop edit.newSize position startWithin
  refine ⟨Nat.le_add_right _ _, fun position notInFront inside => ?_, (leads _).trans ?_⟩
  · refine (leads position).trans ?_
    rw [if_neg (Nat.not_lt.mpr notInFront), if_pos inside]
  · dsimp only
    rw [if_neg (by omega), if_neg (by omega), Nat.sub_self, Nat.add_zero]

namespace LeadsTo

variable {map : PositionMap} {bytes target : Span} {edit : MapEdit}

/-- Bytes behind an edit move as a whole. -/
theorem edit_inFront (leadsTo : map.LeadsTo bytes target) (fits : edit.Fits map)
    (inFront : edit.span.stop ≤ bytes.start)
    : (edit.onMap map).LeadsTo
        ⟨bytes.start - edit.span.length + edit.newSize,
          bytes.stop - edit.span.length + edit.newSize⟩
        target := by
  obtain ⟨ordered, inside, behind⟩ := leadsTo
  have startOrdered := fits.ordered
  have leads (position : Nat) :=
    toSource_edit edit.span.stop edit.newSize position (Nat.le_trans fits.ordered fits.within)
  simp only [Span.length]
  refine ⟨by dsimp only; omega, fun position notInFront isInside => ?_, (leads _).trans ?_⟩
  · refine (leads position).trans ?_
    dsimp only at notInFront isInside
    rw [if_neg (by omega), if_neg (by omega)]
    exact inside _ (by omega) (by omega)
  · dsimp only
    rw [if_neg (by omega), if_neg (by omega), ← behind]
    congr 1
    omega

/-- New bytes among others lead to where the edit starts, which is one of these. -/
theorem edit_within (leadsTo : map.LeadsTo bytes target) (fits : edit.Fits map)
    (start : bytes.start ≤ edit.span.start) (startInside : edit.span.start < bytes.stop)
    (stop : edit.span.stop ≤ bytes.stop)
    : (edit.onMap map).LeadsTo
        ⟨bytes.start, bytes.stop - edit.span.length + edit.newSize⟩ target := by
  obtain ⟨ordered, inside, behind⟩ := leadsTo
  have startOrdered := fits.ordered
  have leads (position : Nat) :=
    toSource_edit edit.span.stop edit.newSize position (Nat.le_trans fits.ordered fits.within)
  simp only [Span.length]
  refine ⟨by dsimp only; omega, fun position notBefore isInside => ?_, (leads _).trans ?_⟩
  · refine (leads position).trans ?_
    dsimp only at notBefore isInside
    split
    · exact inside position notBefore (by omega)
    · split
      · exact inside _ start startInside
      · exact inside _ (by omega) (by omega)
  · dsimp only
    rw [if_neg (by omega), if_neg (by omega), ← behind]
    congr 1
    omega

/-- Bytes in front of an edit stay where they are. -/
theorem edit_behind (leadsTo : map.LeadsTo bytes target) (fits : edit.Fits map)
    (isBehind : bytes.stop < edit.span.start ∨ bytes.stop = edit.span.start ∧ 0 < edit.newSize)
    : (edit.onMap map).LeadsTo bytes target := by
  obtain ⟨ordered, inside, behind⟩ := leadsTo
  have leads (position : Nat) :=
    toSource_edit edit.span.stop edit.newSize position (Nat.le_trans fits.ordered fits.within)
  refine ⟨ordered, fun position notBefore isInside => ?_, (leads _).trans ?_⟩
  · refine (leads position).trans ?_
    rw [if_pos (by omega)]
    exact inside position notBefore isInside
  · rw [← behind]
    split
    · rfl
    · rw [if_pos (by omega)]
      congr 1
      omega

/-- Edits in front of some bytes, inside them and behind them leave them where they lead. -/
theorem onMap {moved : Span} (leadsTo : map.LeadsTo bytes target) (fits : edit.Fits map)
    (moves : edit.move? bytes = some moved)
    : (edit.onMap map).LeadsTo moved target := by
  unfold MapEdit.move? at moves
  split at moves
  · next inFront =>
      obtain rfl := Option.some.inj moves
      exact leadsTo.edit_inFront fits inFront
  · split at moves
    · next within =>
        obtain rfl := Option.some.inj moves
        exact leadsTo.edit_within fits within.1 within.2.1 within.2.2
    · split at moves
      · next isBehind =>
          obtain rfl := Option.some.inj moves
          exact leadsTo.edit_behind fits isBehind
      · contradiction

end LeadsTo

/-- Where some bytes are after edits in order, if none of them cuts across an end of the bytes. -/
def moveAll? (bytes : Span) (edits : List MapEdit) : Option Span :=
  edits.foldlM MapEdit.move? bytes

theorem LeadsTo.editAll {map : PositionMap} {bytes target moved : Span} {edits : List MapEdit}
    (leadsTo : map.LeadsTo bytes target) (admits : map.Admits edits)
    (moves : moveAll? bytes edits = some moved)
    : (map.editAll edits).LeadsTo moved target := by
  induction edits generalizing map bytes with
  | nil =>
      obtain rfl := Option.some.inj moves
      exact leadsTo
  | cons edit rest ih =>
      obtain ⟨fits, admitsRest⟩ := admits
      obtain ⟨next, movesFirst, movesRest⟩ := Option.bind_eq_some_iff.mp moves
      exact ih (leadsTo.onMap fits movesFirst) admitsRest movesRest

-----------------------------------------------------------------------------------------
-- Maps of edited texts
-----------------------------------------------------------------------------------------

/-- The table of a text that has been edited in any way, from the numbers up to its size at first. -/
theorem table_editAll_identity {size : Nat} {edits : List MapEdit}
    (admits : (identity size).Admits edits)
    : let map := (identity size).editAll edits
      map.table map.workingSize = edits.foldl MapEdit.onTable (List.range (size + 1)) := by
  have edited := table_editAll admits
  rwa [workingSize_identity, table_identity] at edited

/-- Behind an edited text positions lead to the end of its source. -/
theorem toSource_editAll_of_le {size : Nat} (edits : List MapEdit) (position : Nat)
    (behind : ((identity size).editAll edits).workingSize ≤ position)
    : ((identity size).editAll edits).toSource position = size := by
  rw [toSource_of_le behind]
  exact sourceSize_editAll (identity size) edits

/-- The bytes of a replacement lead to the span that it replaced, wherever later edits move them. -/
theorem leadsTo_editAll_append {map : PositionMap} {edit : MapEdit} {earlier later : List MapEdit}
    {bytes : Span} (admits : map.Admits (earlier ++ edit :: later))
    (moves : moveAll? ⟨edit.span.start, edit.span.start + edit.newSize⟩ later = some bytes)
    : let before := map.editAll earlier
      (map.editAll (earlier ++ edit :: later)).LeadsTo bytes
        ⟨before.toSource edit.span.start, before.toSource edit.span.stop⟩ := by
  obtain ⟨-, fits, admitsLater⟩ := admits_append.mp admits
  rw [editAll_append]
  exact (leadsTo_edit fits).editAll admitsLater moves

/-- The map of a text that has been edited in any way leads where the table leads that counts up to
the size of the source and is edited the same way, and behind the end of the working text to that of
the source. The bytes of each replacement lead back to the span that it replaced, whatever was
replaced or deleted there before, and wherever later edits in front, inside and behind move them.
-/
theorem toSource_editAll_identity (size : Nat) {edits : List MapEdit}
    (admits : (identity size).Admits edits)
    : let map := (identity size).editAll edits
      let table := edits.foldl MapEdit.onTable (List.range (size + 1))
      table.length = map.workingSize + 1
      ∧ (∀ position, position ≤ map.workingSize → table[position]? = some (map.toSource position))
      ∧ (∀ position, map.workingSize ≤ position → map.toSource position = size)
      ∧ ∀ earlier edit later bytes,
          edits = earlier ++ edit :: later
          → moveAll? ⟨edit.span.start, edit.span.start + edit.newSize⟩ later = some bytes
          → let before := (identity size).editAll earlier
            map.LeadsTo bytes ⟨before.toSource edit.span.start, before.toSource edit.span.stop⟩ := by
  intro map table
  have isTable : table = map.table map.workingSize := (table_editAll_identity admits).symm
  refine ⟨?_, fun position within => ?_, toSource_editAll_of_le edits, ?_⟩
  · rw [isTable, length_table]
  · rw [isTable, getElem?_table, if_pos within]
  · rintro earlier edit later bytes rfl moves
    exact leadsTo_editAll_append admits moves

/-- A replacement inside another one, with the front of the text deleted and a byte added behind,
and the first replacement then taken out whole.
-/
theorem toSource_editAll_identity_of_nested_edits
    : let edits : List MapEdit := [⟨⟨2, 6⟩, 6⟩, ⟨⟨3, 5⟩, 1⟩, ⟨⟨0, 1⟩, 0⟩, ⟨⟨6, 6⟩, 1⟩, ⟨⟨2, 3⟩, 2⟩]
      let map := (identity 10).editAll edits
      (identity 10).Admits edits
      ∧ map.table map.workingSize = [1, 2, 2, 2, 2, 2, 2, 6, 6, 7, 8, 9, 10]
      ∧ (∀ position, 12 ≤ position → map.toSource position = 10)
      ∧ map.LeadsTo ⟨1, 7⟩ ⟨2, 6⟩
      ∧ (map.edit ⟨1, 7⟩ 0).LeadsTo ⟨1, 1⟩ ⟨2, 6⟩ := by
  intro edits map
  have admits : (identity 10).Admits edits := by decide
  have admitsMore : (identity 10).Admits (edits ++ [⟨⟨1, 7⟩, 0⟩]) := by decide
  obtain ⟨-, -, behind, replaced⟩ := toSource_editAll_identity 10 admits
  obtain ⟨-, -, -, removed⟩ := toSource_editAll_identity 10 admitsMore
  refine ⟨admits, by decide, behind, ?_, ?_⟩
  · exact replaced [] ⟨⟨2, 6⟩, 6⟩ _ ⟨1, 7⟩ rfl rfl
  · exact removed [] ⟨⟨2, 6⟩, 6⟩ _ ⟨1, 1⟩ rfl rfl

end PositionMap

end TaggedText
