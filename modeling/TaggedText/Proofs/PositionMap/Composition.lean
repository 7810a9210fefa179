import TaggedText.Proofs.PositionMap.Table

/-!
Maps one behind the other. Edits of a map that has been edited before lead through a fresh map of
its working text, and from there on through the map as it was. So where a position leads does not
depend on how the edits were grouped into sessions.
-/

namespace TaggedText

namespace PositionMap

/-- A map leads through another one first, and then through the map as it was before. -/
structure LeadsThrough (map fresh before : PositionMap) : Prop where
  sameSize : map.workingSize = fresh.workingSize
  leads : ∀ position, map.toSource position = before.toSource (fresh.toSource position)

/-- A map that has not been edited further leads through the map that changes nothing. -/
theorem leadsThrough_identity (map : PositionMap)
    : map.LeadsThrough (identity map.workingSize) map := by
  refine ⟨(workingSize_identity _).symm, fun position => ?_⟩
  rw [toSource_identity]
  by_cases inside : position ≤ map.workingSize
  · rw [Nat.min_eq_left inside]
  · rw [Nat.min_eq_right (by omega), toSource_of_le (Nat.le_refl _), toSource_of_le (by omega)]

namespace LeadsThrough

variable {map fresh before : PositionMap}

/-- An edit of a map is an edit of the fresh one. Which position an edit asks the map for depends on
the edit alone, and both maps answer for the same one.
-/
theorem onMap (through : map.LeadsThrough fresh before) {edit : MapEdit} (fits : edit.Fits map)
    : (edit.onMap map).LeadsThrough (edit.onMap fresh) before := by
  obtain ⟨sameSize, leads⟩ := through
  have within : edit.span.start ≤ map.workingSize := Nat.le_trans fits.ordered fits.within
  have alsoWithin : edit.span.start ≤ fresh.workingSize := sameSize ▸ within
  constructor
  · calc (map.edit edit.span edit.newSize).workingSize
        = edit.span.start + edit.newSize + (map.workingSize - edit.span.stop) :=
          workingSize_onMap fits
      _ = edit.span.start + edit.newSize + (fresh.workingSize - edit.span.stop) := by
          rw [sameSize]
      _ = (fresh.edit edit.span edit.newSize).workingSize :=
          (workingSize_edit edit.span.stop edit.newSize alsoWithin).symm
  · intro position
    have answer := toSource_edit edit.span.stop edit.newSize position within
    have fromFresh := toSource_edit edit.span.stop edit.newSize position alsoWithin
    refine answer.trans (Eq.trans ?_ (congrArg before.toSource fromFresh).symm)
    split
    · exact leads position
    · split <;> exact leads _

/-- Editing on and on edits the fresh map the same way, by induction on the edits. -/
theorem editAll (through : map.LeadsThrough fresh before) {edits : List MapEdit}
    (admits : map.Admits edits)
    : fresh.Admits edits ∧ (map.editAll edits).LeadsThrough (fresh.editAll edits) before := by
  induction edits generalizing map fresh with
  | nil => exact ⟨trivial, through⟩
  | cons edit rest ih =>
      obtain ⟨fits, admitsRest⟩ := admits
      obtain ⟨admitsLater, leadsLater⟩ := ih (through.onMap fits) admitsRest
      have alsoFits : edit.Fits fresh := ⟨fits.ordered, through.sameSize ▸ fits.within⟩
      exact ⟨⟨alsoFits, admitsLater⟩, leadsLater⟩

end LeadsThrough

/-- Leads a position of a text that was edited in sessions back to the text as it was at first, the
last session first. Each session has a fresh map of the text that those before it have left.
-/
def leadBack (size : Nat) : List (List MapEdit) → Nat → Nat
  | [], position => (identity size).toSource position
  | edits :: later, position =>
      let map := (identity size).editAll edits
      map.toSource (leadBack map.workingSize later position)

/-- Sessions lead back where a single map of all their edits leads, by induction on the sessions. -/
theorem leadBack_eq {size : Nat} {sessions : List (List MapEdit)}
    (admits : (identity size).Admits sessions.flatten) (position : Nat)
    : leadBack size sessions position
      = ((identity size).editAll sessions.flatten).toSource position := by
  induction sessions generalizing size position with
  | nil => rfl
  | cons edits later ih =>
      rw [List.flatten_cons] at admits ⊢
      obtain ⟨-, admitsLater⟩ := admits_append.mp admits
      let map := (identity size).editAll edits
      obtain ⟨admitsFresh, through⟩ := (leadsThrough_identity map).editAll admitsLater
      calc map.toSource (leadBack map.workingSize later position)
          = map.toSource
              (((identity map.workingSize).editAll later.flatten).toSource position) := by
            rw [ih admitsFresh]
        _ = (map.editAll later.flatten).toSource position := (through.leads position).symm
        _ = ((identity size).editAll (edits ++ later.flatten)).toSource position := by
            rw [editAll_append]

/-- Further edits of an edited map lead through a fresh map of its working text that is edited the same
way, from every position. Where positions lead is therefore the same for all ways to cut the edits into
sessions: each way leads them back session by session.
-/
theorem toSource_editAll_through {size : Nat} {edits more : List MapEdit}
    (admits : (identity size).Admits edits)
    (admitsMore : ((identity size).editAll edits).Admits more)
    : let map := (identity size).editAll edits
      let fresh := (identity map.workingSize).editAll more
      (map.editAll more).workingSize = fresh.workingSize
      ∧ (∀ position, (map.editAll more).toSource position = map.toSource (fresh.toSource position))
      ∧ ∀ sessions,
          sessions.flatten = edits ++ more
          → ∀ position, leadBack size sessions position = (map.editAll more).toSource position := by
  intro map fresh
  obtain ⟨-, through⟩ := (leadsThrough_identity map).editAll admitsMore
  refine ⟨through.sameSize, through.leads, fun sessions same position => ?_⟩
  have admitsAll : (identity size).Admits sessions.flatten := by
    rw [same]
    exact admits_append.mpr ⟨admits, admitsMore⟩
  rw [leadBack_eq admitsAll, same, editAll_append]

/-- A replacement, edits that cut across its start, within it and behind the text, and a deletion of the
front: all at once, in two sessions, and each in a session of its own.
-/
theorem toSource_editAll_through_of_cut_replacement
    : let edits : List MapEdit := [⟨⟨2, 6⟩, 6⟩, ⟨⟨9, 12⟩, 1⟩]
      let more : List MapEdit := [⟨⟨1, 4⟩, 2⟩, ⟨⟨5, 5⟩, 3⟩, ⟨⟨0, 2⟩, 0⟩, ⟨⟨10, 10⟩, 1⟩]
      let map := (identity 10).editAll edits
      let fresh := (identity 10).editAll more
      (identity 10).Admits edits
      ∧ map.Admits more
      ∧ map.table 10 = [0, 1, 2, 2, 2, 2, 2, 2, 6, 7, 10]
      ∧ fresh.table 11 = [1, 4, 5, 6, 6, 6, 6, 7, 8, 9, 10, 10]
      ∧ (map.editAll more).table 11 = [1, 2, 2, 2, 2, 2, 2, 2, 6, 7, 10, 10]
      ∧ (∀ position, (map.editAll more).toSource position = map.toSource (fresh.toSource position))
      ∧ ∀ position,
          leadBack 10 [edits, more] position
          = leadBack 10 ((edits ++ more).map fun edit => [edit]) position := by
  intro edits more map fresh
  have admits : (identity 10).Admits edits := by decide
  have admitsMore : map.Admits more := by decide
  obtain ⟨-, leads, bySession⟩ := toSource_editAll_through admits admitsMore
  refine ⟨admits, admitsMore, by decide, by decide, by decide, leads, fun position => ?_⟩
  exact (bySession [edits, more] rfl position).trans (bySession _ rfl position).symm

end PositionMap

end TaggedText
