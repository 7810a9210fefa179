import TaggedText.Proofs.Draft.Substitution

/-!
Positions of a text and its committed edits. A position outside of all spans that are replaced
moves by the growth of the text in front of it, and at its new place the map leads to where it led
before. Deletions have no new text to keep their start apart from their stop, so they are left
out.
-/

namespace TaggedText

namespace Edit

/-- How much longer an edit makes the text. -/
def growth (edit : Edit) : Int :=
  edit.replacement.elim 0 fun replacement => replacement.size - edit.text.size

/-- How far edits move a position: by the growth of the text in front of it. -/
def shiftAt (edits : List Edit) (position : Nat) : Int :=
  (edits.filter (·.span.stop ≤ position)).foldr (fun edit shift => edit.growth + shift) 0

/-- Whether edits leave a position outside of the spans that they replace. -/
def Spares (edits : List Edit) (position : Nat) : Prop :=
  ∀ edit ∈ edits,
    edit.replacement.isSome → position ≤ edit.span.start ∨ edit.span.stop ≤ position

theorem growthAfter_eq (growth : Int) (edit : Edit)
    : edit.growthAfter growth = growth + edit.growth := by
  unfold growthAfter Edit.growth
  cases edit.replacement with
  | none => exact (Int.add_zero growth).symm
  | some replacement => exact Int.add_sub_assoc ..

/-- A position is moved by the edits in front of it. -/
theorem shiftAt_cons (edit : Edit) (edits : List Edit) (position : Nat)
    : shiftAt (edit :: edits) position
      = (if edit.span.stop ≤ position then edit.growth else 0) + shiftAt edits position := by
  simp only [shiftAt, List.filter_cons, decide_eq_true_eq]
  split
  · rw [List.foldr_cons]
  · rw [Int.zero_add]

/-- Edits that fit behind a position do not move it. -/
theorem Fit.shiftAt_eq_zero {text : Text} {floor position : Nat} {edits : List Edit}
    (fit : Fit text floor edits) (inFront : position < floor)
    : shiftAt edits position = 0 := by
  have none : edits.filter (·.span.stop ≤ position) = [] :=
    List.filter_eq_nil_iff.mpr fun edit member => by
      have start := fit.floor_le edit member
      obtain ⟨left, right, -, startSize, stopSize⟩ :=
        Text.slice?_eq_some.mp (fit.slice edit member)
      simp only [decide_eq_true_eq]
      omega
  rw [shiftAt, none]
  rfl

end Edit

namespace Document

/-- A replacement that is not empty changes nothing up to its start, which leads to where the
replaced text began.
-/
theorem Midway.toSource_replace {origin live : Document} {growth : Int}
    {old new front text later replacement : Text}
    (midway : Midway origin live growth old new (front ++ (text ++ later)))
    (positive : 0 < replacement.size) {position : Nat}
    (upToStart : position ≤ new.size + front.size)
    : (live.replace ⟨new.size + front.size, new.size + (front.size + text.size)⟩
          (some replacement)).map.toSource position
      = live.map.toSource position := by
  have sized := midway.workingSize
  rw [midway.byNow, Text.size_append, Text.size_append] at sized
  rw [map_replace, PositionMap.toSource_edit _ _ _ (by omega)]
  split
  · rfl
  · rw [if_pos (by omega)]
    congr 1
    omega

/-- In front of the settled text the rest of a commit changes nothing, and from the end of the old
text on each position that the edits spare leads from its new place to where it led in the
beginning. The induction is on the edits; a position in front of the first span is settled with it.
-/
theorem Midway.toSource_replaceAll {origin live : Document} {growth : Int} {old new rest : Text}
    {edits : List Edit} (midway : Midway origin live growth old new rest)
    (fit : Edit.Fit origin.working old.size edits)
    (notDeleting : ∀ edit ∈ edits, edit.replacement ≠ some [])
    : let final := (live.replaceAll growth edits).1
      (∀ position, position < new.size → final.map.toSource position = live.map.toSource position)
      ∧ ∀ position,
          old.size ≤ position
          → Edit.Spares edits position
          → final.map.toSource (position + (growth + Edit.shiftAt edits position)).toNat
            = origin.map.toSource position := by
  induction edits generalizing live growth old new rest with
  | nil =>
      refine ⟨fun _ _ => rfl, fun position behind _ => ?_⟩
      obtain ⟨distance, rfl⟩ := Nat.exists_eq_add_of_le behind
      have growth := midway.growth
      rw [← midway.toSource distance]
      congr 1
      simp only [Edit.shiftAt, List.filter_nil, List.foldr_nil]
      omega
  | cons edit tail ih =>
      obtain ⟨front, later, rfl, startSize, stopSize, oldSize, made⟩ := midway.exists_parts fit
      obtain ⟨-, -, fitLater⟩ := fit
      obtain ⟨notDeletion, notDeletingLater⟩ := List.forall_mem_cons.mp notDeleting
      have grown := midway.growth
      simp only [made, Edit.growthAfter_eq]
      cases isReplacing : edit.replacement with
      | none =>
          simp only [Edit.floorAfter, isReplacing] at fitLater
          obtain ⟨inFront, spared⟩ := ih midway fitLater notDeletingLater
          have unmoved : edit.growth = 0 := by rw [Edit.growth, isReplacing]; rfl
          simp only [replace_none, unmoved, Int.add_zero]
          refine ⟨inFront, fun position fromOld spares => ?_⟩
          rw [Edit.shiftAt_cons, unmoved, ite_self, Int.zero_add]
          exact spared position fromOld fun other member => spares other (by simp [member])
      | some replacement =>
          have positive : 0 < replacement.size :=
            Nat.pos_of_ne_zero fun isZero =>
              notDeletion (Text.eq_nil_of_size_eq_zero isZero ▸ isReplacing)
          have grows : edit.growth = replacement.size - edit.text.size := by
            rw [Edit.growth, isReplacing]
            rfl
          simp only [Edit.floorAfter, isReplacing, Option.isSome_some, if_true] at fitLater
          obtain ⟨inFront, spared⟩ :=
            ih (midway.replace replacement) (oldSize ▸ fitLater) notDeletingLater
          rw [Int.add_sub_assoc, ← grows] at inFront spared
          simp only [Text.size_append] at inFront
          rw [oldSize] at spared
          have settled {position : Nat} (upToStart : position ≤ new.size + front.size) :=
            (inFront position (by omega)).trans (midway.toSource_replace positive upToStart)
          refine ⟨fun position inNew => settled (by omega), fun position fromOld spares => ?_⟩
          rw [Edit.shiftAt_cons]
          by_cases isBehind : edit.span.stop ≤ position
          · rw [if_pos isBehind, ← Int.add_assoc growth]
            exact spared position isBehind fun other member => spares other (by simp [member])
          · have upToStart : position ≤ edit.span.start :=
              (spares edit (by simp) (by simp [isReplacing])).resolve_right isBehind
            have unshifted : Edit.shiftAt tail position = 0 :=
              fitLater.shiftAt_eq_zero (by omega)
            obtain ⟨distance, rfl⟩ := Nat.exists_eq_add_of_le fromOld
            have place
                : (((old.size + distance : Nat) : Int) + (growth + (0 + 0))).toNat
                  = new.size + distance := by
              omega
            rw [if_neg isBehind, unshifted, place, settled (by omega), midway.toSource]

/-- After a commit each position that the edits spare leads from its new place to where it led
before.
-/
theorem toSource_commit {document : Document} {edits : List Edit}
    (sized : document.map.workingSize = document.working.size)
    (fit : Edit.Fit document.working 0 edits)
    (notDeleting : ∀ edit ∈ edits, edit.replacement ≠ some []) {position : Nat}
    (spares : Edit.Spares edits position)
    : (document.commit edits).map.toSource (position + Edit.shiftAt edits position).toNat
      = document.map.toSource position := by
  have spared :=
    ((Midway.refl sized).toSource_replaceAll fit notDeleting).2 position (Nat.zero_le _) spares
  rwa [Int.zero_add] at spared

end Document

end TaggedText
