import TaggedText.Proofs.Conversion.Reachability
import TaggedText.Proofs.Draft.Committing

/-!
Working text, position map and source text of a document agree. A replacement of a slice keeps
them in agreement: positions outside the slice lead where they led before, and the new bytes lead
to where the slice began, which is a boundary of the source. So does every course of steps.
-/

namespace TaggedText

namespace Text

/-- The bytes in front of a place do not depend on what stands there. -/
theorem getElem?_encode_append_left {left : Text} (right : Text) {position : Nat}
    (inFront : position < left.size)
    : (encode (left ++ right))[position]? = (encode left)[position]? := by
  rw [encode_append, List.getElem?_append_left (by simpa using inFront)]

/-- The bytes behind a place do not depend on what stands in front of it. -/
theorem getElem?_encode_append_add (left right : Text) (position : Nat)
    : (encode (left ++ right))[left.size + position]? = (encode right)[position]? := by
  rw [encode_append, List.getElem?_append_right (by simp), length_encode, Nat.add_sub_cancel_left]

end Text

namespace Document

/-- The map of a document knows the sizes of both texts, leads boundaries to boundaries, bytes that
it takes for copied to equal bytes, and never leads back.
-/
structure Tracked (document : Document) : Prop where
  workingSize : document.map.workingSize = document.working.size
  sourceSize : document.map.sourceSize = document.source.size
  copied
    : ∀ position,
        document.map.isCopied position = true
        → ∃ byte,
            (Text.encode document.working)[position]? = some byte
            ∧ (Text.encode document.source)[document.map.toSource position]? = some byte
  boundary
    : ∀ position,
        document.working.isBoundary position = true
        → document.source.isBoundary (document.map.toSource position) = true
  monotone
    : ∀ position later,
        position ≤ later
        → document.map.toSource position ≤ document.map.toSource later

/-- A document whose map tracks its texts, and whose committed edits have spans between boundaries
of the source.
-/
structure Consistent (document : Document) : Prop extends Tracked document where
  log
    : ∀ edit ∈ document.log,
        edit.span.start ≤ edit.span.stop
        ∧ edit.span.stop ≤ document.source.size
        ∧ document.source.isBoundary edit.span.start = true
        ∧ document.source.isBoundary edit.span.stop = true

theorem toSource_ofText (text : Text) (position : Nat)
    : (ofText text).map.toSource position = min position text.size :=
  PositionMap.toSource_identity text.size position

/-- An unedited text is consistent: it leads to itself. -/
theorem consistent_ofText (text : Text) : (ofText text).Consistent where
  workingSize := PositionMap.workingSize_identity _
  sourceSize := rfl
  copied position isCopied := by
    have inText : position < text.size := by
      apply Nat.lt_of_not_le
      intro behind
      rw [PositionMap.isCopied_eq, Run.entryAt?_eq_none.mpr] at isCopied
      · simp at isCopied
      · exact Nat.le_trans (Nat.le_of_eq (PositionMap.workingSize_identity text.size)) behind
    have inBytes : position < (Text.encode text).length := by simpa using inText
    refine ⟨(Text.encode text)[position], List.getElem?_eq_getElem inBytes, ?_⟩
    rw [toSource_ofText, Nat.min_eq_left (Nat.le_of_lt inText)]
    exact List.getElem?_eq_getElem inBytes
  boundary position boundary := by
    have inText : position ≤ text.size := Text.isBoundary_le_size boundary
    rw [toSource_ofText, Nat.min_eq_left inText]
    exact boundary
  monotone position later ordered := by
    rw [toSource_ofText, toSource_ofText]
    omega
  log := by simp [ofText]

section Replacing

variable {document : Document} {span : Span} {left old right : Text}

/-- Copied bytes are still copied: those in front of the slice and those behind it. -/
theorem Tracked.copied_replace (tracked : document.Tracked)
    (working : document.working = left ++ (old ++ right)) (startSize : left.size = span.start)
    (stopSize : left.size + old.size = span.stop) (new : Text) (position : Nat)
    (copied : (document.map.edit span new.size).isCopied position = true)
    : ∃ byte,
        (Text.encode (left ++ (new ++ right)))[position]? = some byte
        ∧ (Text.encode document.source)[(document.map.edit span new.size).toSource position]?
          = some byte := by
  have within : span.start ≤ document.map.workingSize := by
    rw [tracked.workingSize, working, Text.size_append]
    omega
  rw [PositionMap.toSource_edit span.stop new.size position within]
  rw [PositionMap.isCopied_edit span.stop new.size position within] at copied
  by_cases inFront : position < span.start
  · rw [if_pos inFront] at copied ⊢
    have same := tracked.copied position copied
    rw [working, Text.getElem?_encode_append_left _ (by omega)] at same
    rwa [Text.getElem?_encode_append_left _ (by omega)]
  · rw [if_neg inFront] at copied ⊢
    by_cases isNew : position < span.start + new.size
    · rw [if_pos isNew] at copied
      contradiction
    · rw [if_neg isNew] at copied ⊢
      have same := tracked.copied _ copied
      obtain ⟨distance, rfl⟩ := Nat.exists_eq_add_of_le (Nat.le_of_not_lt isNew)
      rw [Nat.add_sub_cancel_left] at same ⊢
      rw [working, ← stopSize, Nat.add_assoc, Text.getElem?_encode_append_add,
        Text.getElem?_encode_append_add, ← Nat.add_assoc, stopSize] at same
      rwa [← startSize, Nat.add_assoc, Text.getElem?_encode_append_add,
        Text.getElem?_encode_append_add]

/-- Boundaries still lead to boundaries. All those of the new text lead to where the slice began. -/
theorem Tracked.boundary_replace (tracked : document.Tracked)
    (working : document.working = left ++ (old ++ right)) (startSize : left.size = span.start)
    (stopSize : left.size + old.size = span.stop) (new : Text) (position : Nat)
    (boundary : (left ++ (new ++ right)).isBoundary position = true)
    : document.source.isBoundary ((document.map.edit span new.size).toSource position) = true := by
  have within : span.start ≤ document.map.workingSize := by
    rw [tracked.workingSize, working, Text.size_append]
    omega
  rw [PositionMap.toSource_edit span.stop new.size position within]
  by_cases inFront : position < span.start
  · rw [if_pos inFront]
    apply tracked.boundary
    rw [working, Text.isBoundary_append_of_le _ (by omega)]
    rwa [Text.isBoundary_append_of_le _ (by omega)] at boundary
  · rw [if_neg inFront]
    by_cases isNew : position < span.start + new.size
    · rw [if_pos isNew]
      apply tracked.boundary
      rw [working, ← startSize]
      exact Text.isBoundary_append_size _ _
    · rw [if_neg isNew]
      apply tracked.boundary
      obtain ⟨distance, rfl⟩ := Nat.exists_eq_add_of_le (Nat.le_of_not_lt isNew)
      rw [Nat.add_sub_cancel_left, working, ← stopSize, Nat.add_assoc, Text.isBoundary_append_add,
        Text.isBoundary_append_add]
      rwa [← startSize, Nat.add_assoc, Text.isBoundary_append_add, Text.isBoundary_append_add]
        at boundary

end Replacing

/-- Replacing a slice keeps the map on the track of both texts. -/
theorem Tracked.replace {document : Document} {span : Span} (tracked : document.Tracked)
    (replacement : Option Text)
    (sliced : (document.working.slice? span.start span.stop).isSome = true)
    : (document.replace span replacement).Tracked := by
  cases replacement with
  | none => exact tracked
  | some new =>
      obtain ⟨old, slice⟩ := Option.isSome_iff_exists.mp sliced
      obtain ⟨left, right, working, startSize, stopSize⟩ := Text.slice?_eq_some.mp slice
      have workingSize := tracked.workingSize
      rw [working, Text.size_append, Text.size_append] at workingSize
      have within : span.start ≤ document.map.workingSize := by omega
      have spliced := working_replace working startSize stopSize new
      refine {
        workingSize := ?_
        sourceSize := tracked.sourceSize
        copied := fun position copied => ?_
        boundary := fun position boundary => ?_
        monotone := fun _ _ inOrder =>
          PositionMap.toSource_edit_le within (by omega) tracked.monotone new.size inOrder
      }
      · rw [spliced, Text.size_append, Text.size_append]
        refine (PositionMap.workingSize_edit _ _ within).trans ?_
        omega
      · rw [spliced]
        exact tracked.copied_replace working startSize stopSize new position copied
      · rw [spliced] at boundary
        exact tracked.boundary_replace working startSize stopSize new position boundary

/-- Committing recorded edits keeps a document consistent: each replacement is made at a slice, and
the spans are led back by the map of the beginning.
-/
theorem Consistent.commit {document : Document} {edits : List Edit}
    (consistent : document.Consistent) (recorded : Edit.Recorded document.working edits)
    : (document.commit edits).Consistent := by
  obtain ⟨placed, source, -, log⟩ := commit?_of_fit consistent.workingSize recorded.fit
  have tracked : (document.commit edits).Tracked := by
    obtain ⟨result, placed, same⟩ := Option.map_eq_some_iff.mp placed
    have kept : result.1.Tracked :=
      replaceAll?_preserves (fun _ _ replacement tracked => tracked.replace replacement)
        consistent.toTracked placed
    rw [← same]
    exact ⟨kept.workingSize, kept.sourceSize, kept.copied, kept.boundary, kept.monotone⟩
  refine { tracked with log := ?_ }
  rw [source, log]
  intro edit member
  rcases List.mem_append.mp member with earlier | member
  · exact consistent.log edit earlier
  · obtain ⟨pending, isPending, rfl⟩ := List.mem_map.mp member
    obtain ⟨left, right, working, startSize, stopSize⟩ :=
      Text.slice?_eq_some.mp (recorded.fit.slice pending isPending)
    have atStart : document.working.isBoundary pending.span.start = true := by
      rw [working, ← startSize]
      exact Text.isBoundary_append_size _ _
    have atStop : document.working.isBoundary pending.span.stop = true := by
      rw [working, ← stopSize, Text.isBoundary_append_add]
      exact Text.isBoundary_append_size _ _
    have stopLeads := consistent.boundary _ atStop
    exact ⟨consistent.monotone _ _ (by omega), Text.isBoundary_le_size stopLeads,
      consistent.boundary _ atStart, stopLeads⟩

end Document

namespace Workbench

/-- Reachable workbenches keep the law of consistency, and their sessions are sound. -/
theorem Reachable.keeps_consistent {workbench : Workbench} (reachable : Reachable workbench)
    : Keeps Document.Consistent workbench :=
  reachable.keeps (fun _ _ consistent recorded => consistent.commit recorded)
    Document.consistent_ofText

/-- The document at work is consistent, whether a session is open or not and whether an input is
loaded or not.
-/
theorem Reachable.document_consistent {workbench : Workbench} (reachable : Reachable workbench)
    : workbench.document.Consistent := by
  have kept := reachable.keeps_consistent
  cases workbench with
  | editing session => exact kept.2.2
  | free draft =>
      cases loaded : draft.document with
      | none =>
          simp only [document, loaded, Option.getD_none]
          exact Document.consistent_ofText []
      | some document =>
          simp only [Workbench.document, loaded, Option.getD_some]
          exact kept document loaded

/-- The law is kept while an entity is replaced and what came of it is replaced once more, with a
word marked across it and a deletion still queued.
-/
theorem Reachable.document_consistent_of_rewritten_entity
    : let steps : List Step := [
        .free (.load "né &amp; b".toList),
        .free .begin,
        .editing (.record (.word 0 3 none)),
        .editing (.record (.replace 4 5 ['&'])),
        .editing .commit,
        .free (.apply [.replace 1 2 ['e'], .replace 4 1 ['u', 'n', 'd']]),
        .free .begin,
        .editing (.record (.delete 0 1))
      ]
      let workbench := run (.free { annotator := .ofLanguage "en" }) steps
      (∀ step ∈ steps, step.isPrimitive = true)
      ∧ workbench.document.working = "ne und b".toList
      ∧ workbench.document.Consistent :=
  ⟨by decide, by decide +kernel, Reachable.document_consistent ⟨_, _, by decide, rfl⟩⟩

end Workbench

end TaggedText
