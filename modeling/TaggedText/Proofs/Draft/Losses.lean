import TaggedText.Proofs.Draft.Seams
import TaggedText.Proofs.Draft.Stretches

/-!
What the working text has lost of its source. A replacement takes away just the source bytes between
the places that the ends of its span lead to, and these are the places that it is logged with. So the
bytes that are left are those outside of all logged replacements. Where one of these has left nothing,
nothing is left of the source on one side of it either.
-/

namespace TaggedText

namespace PositionMap

/-- Some byte of the working text was copied from a place in the source. -/
def Keeps (map : PositionMap) (place : Nat) : Prop :=
  ∃ position, map.isCopied position = true ∧ map.toSource position = place

/-- A map that never leads back, and leads on behind each copied byte. -/
structure Advances (map : PositionMap) : Prop where
  monotone
    : ∀ position later, position ≤ later → map.toSource position ≤ map.toSource later
  onward
    : ∀ position, map.isCopied position = true → map.toSource position < map.toSource (position + 1)

namespace Advances

variable {map : PositionMap} (advances : map.Advances)

include advances

/-- Everything behind a copied byte leads behind its source. -/
theorem toSource_lt {position later : Nat} (copied : map.isCopied position = true)
    (behind : position < later)
    : map.toSource position < map.toSource later :=
  Nat.lt_of_lt_of_le (advances.onward position copied) (advances.monotone _ _ behind)

/-- The copied bytes of a span are those whose source lies between the places that its ends lead to. -/
theorem holds_toSource_iff {start stop position : Nat} (copied : map.isCopied position = true)
    : (Span.mk (map.toSource start) (map.toSource stop)).Holds (map.toSource position)
      ↔ (Span.mk start stop).Holds position := by
  constructor
  · rintro ⟨fromStart, beforeStop⟩
    constructor
    · apply Nat.le_of_not_lt
      intro inFront
      exact Nat.not_le_of_lt (advances.toSource_lt copied inFront) fromStart
    · apply Nat.lt_of_not_le
      intro behind
      exact Nat.not_lt_of_le (advances.monotone _ _ behind) beforeStop
  · rintro ⟨fromStart, beforeStop⟩
    exact ⟨advances.monotone _ _ fromStart, advances.toSource_lt copied beforeStop⟩

/-- An edited map still leads on behind each copied byte: at the seam of a deletion it leads further on
than before.
-/
theorem onward_edit {start stop : Nat} (newSize : Nat) (ordered : start ≤ stop)
    (within : start ≤ map.workingSize) {position : Nat}
    (copied : (map.edit ⟨start, stop⟩ newSize).isCopied position = true)
    : (map.edit ⟨start, stop⟩ newSize).toSource position
      < (map.edit ⟨start, stop⟩ newSize).toSource (position + 1) := by
  rw [isCopied_edit stop newSize _ within] at copied
  rw [toSource_edit stop newSize _ within, toSource_edit stop newSize _ within]
  by_cases inFront : position < start
  · rw [if_pos inFront] at copied ⊢
    split
    · exact advances.onward position copied
    · split <;> exact advances.toSource_lt copied (by omega)
  · rw [if_neg inFront] at copied ⊢
    by_cases isNew : position < start + newSize
    · rw [if_pos isNew] at copied
      contradiction
    · rw [if_neg isNew] at copied ⊢
      rw [if_neg (by omega), if_neg (by omega)]
      exact advances.toSource_lt copied (by omega)

/-- An edit takes away the source between the places that the ends of its span lead to. -/
theorem keeps_edit {start : Nat} (stop newSize : Nat) (within : start ≤ map.workingSize)
    {place : Nat}
    : (map.edit ⟨start, stop⟩ newSize).Keeps place
      ↔ map.Keeps place ∧ ¬ (Span.mk (map.toSource start) (map.toSource stop)).Holds place := by
  constructor
  · rintro ⟨position, copied, rfl⟩
    rw [isCopied_edit stop newSize _ within] at copied
    rw [toSource_edit stop newSize _ within]
    by_cases inFront : position < start
    · rw [if_pos inFront] at copied ⊢
      refine ⟨⟨position, copied, rfl⟩, fun inside => ?_⟩
      exact Nat.not_le_of_lt inFront ((advances.holds_toSource_iff copied).mp inside).1
    · rw [if_neg inFront] at copied ⊢
      by_cases isNew : position < start + newSize
      · rw [if_pos isNew] at copied
        contradiction
      · rw [if_neg isNew] at copied ⊢
        refine ⟨⟨_, copied, rfl⟩, fun inside => ?_⟩
        exact Nat.not_le_of_lt ((advances.holds_toSource_iff copied).mp inside).2
          (Nat.le_add_right _ _)
  · rintro ⟨⟨position, copied, rfl⟩, outside⟩
    rw [advances.holds_toSource_iff copied] at outside
    by_cases inFront : position < start
    · refine ⟨position, ?_, ?_⟩
      · rwa [isCopied_edit stop newSize _ within, if_pos inFront]
      · rw [toSource_edit stop newSize _ within, if_pos inFront]
    · have behind : stop ≤ position :=
        Nat.le_of_not_lt fun beforeStop => outside ⟨Nat.le_of_not_lt inFront, beforeStop⟩
      obtain ⟨distance, rfl⟩ := Nat.exists_eq_add_of_le behind
      refine ⟨start + newSize + distance, ?_, ?_⟩
      · rwa [isCopied_edit stop newSize _ within, if_neg (by omega), if_neg (by omega),
          Nat.add_sub_cancel_left]
      · rw [toSource_edit stop newSize _ within, if_neg (by omega), if_neg (by omega),
          Nat.add_sub_cancel_left]

end Advances

/-- The source of two copied bytes next to each other is next to each other. -/
theorem Seamless.toSource_succ {map : PositionMap} (seamless : map.Seamless) {position : Nat}
    (copied : map.isCopied position = true) (alsoCopied : map.isCopied (position + 1) = true)
    : map.toSource (position + 1) = map.toSource position + 1 := by
  rcases seamless position copied with leads | ⟨notCopied, -⟩
  · exact leads
  · rw [notCopied] at alsoCopied
    contradiction

end PositionMap

namespace Document

/-- Copied bytes have a place in the source. -/
theorem Tracked.toSource_lt_size {document : Document} (tracked : document.Tracked) {position : Nat}
    (copied : document.map.isCopied position = true)
    : document.map.toSource position < document.source.size := by
  obtain ⟨byte, -, inSource⟩ := tracked.copied position copied
  obtain ⟨inBytes, -⟩ := List.getElem?_eq_some_iff.mp inSource
  simpa using inBytes

/-- Without seams the map leads on behind each copied byte. -/
theorem Tracked.advances {document : Document} (tracked : document.Tracked)
    (seamless : document.map.Seamless)
    : document.map.Advances where
  monotone := tracked.monotone
  onward position copied := by
    have inSource := tracked.toSource_lt_size copied
    rcases seamless position copied with leads | ⟨-, leads⟩
    · omega
    · rw [leads, tracked.sourceSize]
      exact inSource

/-- Edits that are made in order take away the source between the places that they are logged with, if
they put something in place of it, and nothing else, by induction on the edits.
-/
theorem keeps_replaceAll? {document : Document} {growth : Int} {edits : List Edit}
    {result : Document × List Edit} (tracked : document.Tracked) (advances : document.map.Advances)
    (placed : document.replaceAll? growth edits = some result) {place : Nat}
    : result.1.map.Keeps place
      ↔ document.map.Keeps place
        ∧ ∀ edit ∈ result.2, edit.replacement.isSome = true → ¬ edit.span.Holds place := by
  induction edits generalizing document growth result with
  | nil =>
      simp only [replaceAll?, Option.some.injEq] at placed
      simp [← placed]
  | cons edit rest ih =>
      simp only [replaceAll?] at placed
      split at placed
      · split at placed
        · next start stop _ _ sliced =>
            obtain ⟨later, placedLater, rfl⟩ := Option.map_eq_some_iff.mp placed
            cases isReplacing : edit.replacement with
            | none =>
                rw [isReplacing, replace_none] at placedLater
                simpa [isReplacing] using ih tracked advances placedLater
            | some new =>
                rw [isReplacing] at placedLater
                have trackedLater : (document.replace ⟨start, stop⟩ (some new)).Tracked :=
                  tracked.replace (some new) sliced
                obtain ⟨old, slice⟩ := Option.isSome_iff_exists.mp sliced
                obtain ⟨left, right, working, startSize, stopSize⟩ := Text.slice?_eq_some.mp slice
                have ordered : start ≤ stop := by omega
                have within : start ≤ document.map.workingSize := by
                  rw [tracked.workingSize, working, Text.size_append]
                  omega
                have advancesLater : (document.replace ⟨start, stop⟩ (some new)).map.Advances :=
                  ⟨trackedLater.monotone, fun _ => advances.onward_edit new.size ordered within⟩
                rw [ih trackedLater advancesLater placedLater, map_replace,
                  advances.keeps_edit stop new.size within]
                simp only [List.forall_mem_cons, Option.isSome_some, true_implies, and_assoc]
        · simp at placed
      · simp at placed

/-- What is left of the source of a document is what no logged edit has replaced. If an edit has put
nothing in the place of its span, then nothing is left in front of the end of this or nothing from the
start of this on.
-/
structure Accounted (document : Document) : Prop where
  keeps
    : ∀ place,
        document.map.Keeps place
        ↔ place < document.source.size
          ∧ ∀ edit ∈ document.log, edit.replacement.isSome = true → ¬ edit.span.Holds place
  atEnds
    : ∀ edit ∈ document.log,
        edit.replacement = some []
        → (∀ place, document.map.Keeps place → edit.span.stop ≤ place)
          ∨ ∀ place, document.map.Keeps place → place < edit.span.start

/-- An unedited text has all of its source. -/
theorem accounted_ofText (text : Text) : (ofText text).Accounted where
  keeps place := by
    constructor
    · rintro ⟨position, copied, rfl⟩
      exact ⟨(consistent_ofText text).toSource_lt_size copied, by simp [ofText]⟩
    · rintro ⟨inSource, -⟩
      have inSource : place < text.size := inSource
      have notEmpty : text.size ≠ 0 := by omega
      refine ⟨place, ?_, ?_⟩
      · rw [PositionMap.isCopied_eq]
        simp only [ofText, PositionMap.identity, notEmpty, if_false, Run.entryAt?_cons]
        rw [if_pos inSource]
        rfl
      · rw [toSource_ofText]
        omega
  atEnds := by simp [ofText]

/-- Commits of recorded edits keep account of the source. A deletion touches an end of the text, so all
that is left of the source lies on the other side of it.
-/
theorem Accounted.commit {document : Document} {edits : List Edit} (accounted : document.Accounted)
    (consistent : document.Consistent) (seamless : document.map.Seamless)
    (recorded : Edit.Recorded document.working edits)
    : (document.commit edits).Accounted := by
  obtain ⟨placed, source, -, log⟩ := commit?_of_fit consistent.workingSize recorded.fit
  have advances := consistent.advances seamless
  have left (place : Nat)
      : (document.commit edits).map.Keeps place
        ↔ document.map.Keeps place
          ∧ ∀ edit ∈ edits.map (Edit.toSource document.map),
              edit.replacement.isSome = true → ¬ edit.span.Holds place := by
    obtain ⟨result, placed, same⟩ := Option.map_eq_some_iff.mp placed
    have committed : result.2 = edits.map (Edit.toSource document.map) := by
      rw [← same] at log
      exact List.append_cancel_left log
    rw [← same, ← committed]
    exact keeps_replaceAll? consistent.toTracked advances placed
  refine ⟨fun place => ?_, fun edit member isDeleting => ?_⟩
  · rw [left, accounted.keeps, source, log]
    simp only [List.forall_mem_append, and_assoc]
  · rw [log] at member
    rcases List.mem_append.mp member with earlier | later
    · exact (accounted.atEnds edit earlier isDeleting).imp
        (fun behind place kept => behind place ((left place).mp kept).1)
        fun inFront place kept => inFront place ((left place).mp kept).1
    · obtain ⟨pending, isPending, rfl⟩ := List.mem_map.mp later
      have outside (place : Nat) (kept : (document.commit edits).map.Keeps place)
          : document.map.Keeps place
            ∧ ¬ (pending.toSource document.map).span.Holds place :=
        ((left place).mp kept).imp_right fun outside => outside _ later (by rw [isDeleting]; rfl)
      rcases recorded.atEnds pending isPending isDeleting with atStart | atStop
      · refine .inl fun place kept => Nat.le_of_not_lt fun inFront => ?_
        obtain ⟨⟨position, copied, rfl⟩, notInside⟩ := outside place kept
        refine notInside ⟨?_, inFront⟩
        exact advances.monotone _ _ (by omega)
      · refine .inr fun place kept => Nat.lt_of_not_le fun behind => ?_
        obtain ⟨⟨position, copied, rfl⟩, notInside⟩ := outside place kept
        refine notInside ⟨behind, ?_⟩
        have inSource := consistent.toSource_lt_size copied
        have leads : document.map.toSource pending.span.stop = document.source.size := by
          rw [atStop, ← consistent.workingSize, ← consistent.sourceSize]
          exact (PositionMap.behind_workingSize (Nat.le_refl _)).2
        exact Nat.lt_of_lt_of_eq inSource leads.symm

/-- Nothing is lost from inside a document. Copied bytes next to each other come from next to each other
in the source. A byte of the source that no working byte was copied from lies in the span of an edit
that put something in its place, or in a deleted span in front of all that is left of the source or
behind it. Deletions inside the text are refused for this: one that took a copied byte from between
two others would leave these next to each other, with sources that are not.
-/
structure LosesNothingInside (document : Document) : Prop where
  adjacent
    : ∀ position,
        document.map.isCopied position = true
        → document.map.isCopied (position + 1) = true
        → document.map.toSource (position + 1) = document.map.toSource position + 1
  missing
    : ∀ place < document.source.size,
        ¬ document.map.Keeps place
        → ∃ edit ∈ document.log,
            edit.span.Holds place
            ∧ ∃ new,
                edit.replacement = some new
                ∧ (new ≠ []
                  ∨ (∀ other, document.map.Keeps other → edit.span.stop ≤ other)
                  ∨ ∀ other, document.map.Keeps other → other < edit.span.start)
  refused
    : ∀ position between behind,
        position < between
        → between < behind
        → document.map.isCopied position = true
        → document.map.isCopied between = true
        → document.map.isCopied behind = true
        → let edited := document.map.edit ⟨position + 1, behind⟩ 0
          edited.isCopied position = true
          ∧ edited.isCopied (position + 1) = true
          ∧ edited.toSource (position + 1) ≠ edited.toSource position + 1

theorem Accounted.losesNothingInside {document : Document} (accounted : document.Accounted)
    (consistent : document.Consistent) (seamless : document.map.Seamless)
    : document.LosesNothingInside where
  adjacent _ := seamless.toSource_succ
  missing place inSource notKept := by
    rw [accounted.keeps, not_and] at notKept
    have replaced := notKept inSource
    push Not at replaced
    obtain ⟨edit, member, isReplacing, inside⟩ := replaced
    obtain ⟨new, isNew⟩ := Option.isSome_iff_exists.mp isReplacing
    refine ⟨edit, member, inside, new, isNew, ?_⟩
    rcases eq_or_ne new [] with rfl | notEmpty
    · exact .inr (accounted.atEnds edit member isNew)
    · exact .inl notEmpty
  refused position between behind inFront beforeStop copied copiedBetween copiedBehind := by
    intro edited
    have advances := consistent.advances seamless
    have inText : behind < document.map.workingSize := by
      apply Nat.lt_of_not_le
      intro outside
      rw [(PositionMap.behind_workingSize outside).1] at copiedBehind
      contradiction
    have within : position + 1 ≤ document.map.workingSize := by omega
    have first := advances.toSource_lt copied inFront
    have second := advances.toSource_lt copiedBetween beforeStop
    simp only [edited, PositionMap.isCopied_edit _ _ _ within, PositionMap.toSource_edit _ _ _ within,
      Nat.lt_succ_self, if_true, Nat.add_zero, Nat.lt_irrefl, if_false, Nat.sub_self]
    exact ⟨copied, copiedBehind, by omega⟩

end Document

namespace Workbench

/-- Reachable workbenches keep account of the source of their documents. -/
theorem Reachable.keeps_accounted {workbench : Workbench} (reachable : Reachable workbench)
    : Keeps
        (fun document => document.Consistent ∧ document.map.Seamless ∧ document.Accounted)
        workbench :=
  reachable.keeps
    (fun _ _ ⟨consistent, seamless, accounted⟩ recorded =>
      ⟨consistent.commit recorded, Document.seamless_commit consistent seamless recorded,
        accounted.commit consistent seamless recorded⟩)
    fun text =>
      ⟨Document.consistent_ofText text, PositionMap.seamless_identity text.size,
        Document.accounted_ofText text⟩

/-- Nothing is lost from inside the document at work, whatever was replaced and deleted in however many
sessions.
-/
theorem Reachable.loses_nothing_inside {workbench : Workbench} (reachable : Reachable workbench)
    : workbench.document.LosesNothingInside := by
  obtain ⟨consistent, seamless, accounted⟩ := reachable.keeps_accounted.document
    ⟨Document.consistent_ofText [], PositionMap.seamless_identity 0, Document.accounted_ofText []⟩
  exact accounted.losesNothingInside consistent seamless

/-- The ends of a text are deleted, a word inside it is replaced, what replaced it is rewritten and
deleted in part, and more is deleted in front of it, with insertions at the same ends.
-/
theorem Reachable.loses_nothing_inside_of_deleted_replacement
    : let steps : List Step := [
        .free (.load "  né &lt; ab  ".toList),
        .free (.apply [.replace 0 0 ['x'], .delete 0 2, .replace 6 4 ['u', 'n', 'd'], .delete 13 2,
          .replace 15 0 ['y']]),
        .free (.apply [.word 1 6 none, .replace 6 1 ['m', 'm']]),
        .free (.apply [.delete 0 6, .word 6 1 none])
      ]
      let workbench := Workbench.run (.free { annotator := .ofLanguage "en" }) steps
      (∀ step ∈ steps, step.isPrimitive = true)
      ∧ workbench.document.working = "mmd aby".toList
      ∧ (workbench.document.log.filter (·.replacement.isSome)).map (·.span)
        = [⟨0, 0⟩, ⟨0, 2⟩, ⟨6, 10⟩, ⟨13, 15⟩, ⟨15, 15⟩, ⟨6, 6⟩, ⟨0, 6⟩]
      ∧ workbench.document.LosesNothingInside :=
  ⟨by decide, by decide +kernel, by decide +kernel,
    Reachable.loses_nothing_inside ⟨_, _, by decide, rfl⟩⟩

end Workbench

end TaggedText
