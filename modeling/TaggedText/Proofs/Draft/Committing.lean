import TaggedText.Proofs.Draft.Recording
import TaggedText.Proofs.PositionMap.Lookup

/-!
Committing edits one after the other. Midway through a commit the text in front of the last
replacement is settled, and everything behind it is as it was when the session began, moved by
the growth of the text. So every edit finds its own slice of the text where it looks for it, and
the map leads it to where its span led at the beginning.
-/

namespace TaggedText

namespace Edit

/-- The growth of the text behind an edit, from the growth in front of it. -/
def growthAfter (growth : Int) (edit : Edit) : Int :=
  match edit.replacement with
  | none => growth
  | some replacement => growth + replacement.size - edit.text.size

/-- The edit with its span led back to the source. -/
def toSource (map : PositionMap) (edit : Edit) : Edit :=
  { edit with span := ⟨map.toSource edit.span.start, map.toSource edit.span.stop⟩ }

/-- A text with the spans of replacing edits exchanged, from a floor on. Nothing in front of the
floor is kept.
-/
def weave (text : Text) (floor : Nat) : List Edit → Text
  | [] => text.after floor
  | edit :: rest =>
      match edit.replacement with
      | none => weave text floor rest
      | some replacement =>
          text.between floor edit.span.start ++ (replacement ++ weave text edit.span.stop rest)

end Edit

namespace Document

/-- Where a growth of the text in front of a position moves it, unless that would be in front of
the text.
-/
def moved? (growth : Int) (position : Nat) : Option Nat :=
  if position + growth < 0 then none else some (position + growth).toNat

/-- Makes the replacements of edits in order like `replaceAll`, but gives up at a span that moves
to somewhere in front of the text or is no slice of the text as it is by then.
-/
def replaceAll? (document : Document) (growth : Int) : List Edit → Option (Document × List Edit)
  | [] => some (document, [])
  | edit :: rest =>
      match moved? growth edit.span.start, moved? growth edit.span.stop with
      | some start, some stop =>
          if (document.working.slice? start stop).isSome then
            (replaceAll? (document.replace ⟨start, stop⟩ edit.replacement)
                (edit.growthAfter growth) rest).map fun (replaced, committed) =>
              (replaced, { edit with
                span := ⟨document.map.toSource start, document.map.toSource stop⟩ } :: committed)
          else none
      | _, _ => none

/-- Commits edits like `commit`, unless one of them loses its place. -/
def commit? (document : Document) (edits : List Edit) : Option Document :=
  (document.replaceAll? 0 edits).map fun (replaced, committed) =>
    { replaced with log := document.log ++ committed }

@[simp] theorem replace_none (document : Document) (span : Span)
    : document.replace span none = document :=
  rfl

@[simp] theorem source_replace (document : Document) (span : Span) (replacement : Option Text)
    : (document.replace span replacement).source = document.source := by
  cases replacement <;> rfl

@[simp] theorem log_replace (document : Document) (span : Span) (replacement : Option Text)
    : (document.replace span replacement).log = document.log := by
  cases replacement <;> rfl

@[simp] theorem map_replace (document : Document) (span : Span) (new : Text)
    : (document.replace span (some new)).map = document.map.edit span new.size :=
  rfl

/-- Replacing the middle one of three parts of the working text. -/
theorem working_replace {document : Document} {span : Span} {left old right : Text}
    (working : document.working = left ++ (old ++ right)) (startSize : left.size = span.start)
    (stopSize : left.size + old.size = span.stop) (new : Text)
    : (document.replace span (some new)).working = left ++ (new ++ right) := by
  simp only [replace, working, ← stopSize, ← startSize, Text.splice_append]

theorem replaceAll_cons (document : Document) (growth : Int) (edit : Edit) (rest : List Edit)
    : document.replaceAll growth (edit :: rest)
      = let start := (edit.span.start + growth).toNat
        let stop := (edit.span.stop + growth).toNat
        let later :=
          (document.replace ⟨start, stop⟩ edit.replacement).replaceAll (edit.growthAfter growth) rest
        (later.1, { edit with
          span := ⟨document.map.toSource start, document.map.toSource stop⟩ } :: later.2) :=
  rfl

/-- When no edit loses its place, the checks have changed nothing, by induction on the edits. -/
theorem replaceAll_of_replaceAll? {document : Document} {growth : Int} {edits : List Edit}
    {result : Document × List Edit}
    (placed : document.replaceAll? growth edits = some result)
    : document.replaceAll growth edits = result := by
  induction edits generalizing document growth result with
  | nil => simpa [replaceAll?, replaceAll] using placed
  | cons edit rest ih =>
      simp only [replaceAll?, moved?] at placed
      split at placed
      · next start stop startMoved stopMoved =>
          simp only [Option.ite_none_left_eq_some, Option.some.injEq] at startMoved stopMoved
          obtain ⟨-, rfl⟩ := startMoved
          obtain ⟨-, rfl⟩ := stopMoved
          split at placed
          · obtain ⟨later, placedLater, rfl⟩ := Option.map_eq_some_iff.mp placed
            simp only [replaceAll_cons, ih placedLater]
          · simp at placed
      · simp at placed

/-- What every replacement of a slice preserves, checked replacements preserve, by induction on
the edits.
-/
theorem replaceAll?_preserves {keeps : Document → Prop}
    (preserved
      : ∀ document span replacement,
          keeps document
          → (document.working.slice? span.start span.stop).isSome
          → keeps (document.replace span replacement))
    {document : Document} {growth : Int} {edits : List Edit} {result : Document × List Edit}
    (kept : keeps document) (placed : document.replaceAll? growth edits = some result)
    : keeps result.1 := by
  induction edits generalizing document growth result with
  | nil =>
      simp only [replaceAll?, Option.some.injEq] at placed
      exact placed ▸ kept
  | cons edit rest ih =>
      simp only [replaceAll?] at placed
      split at placed
      · split at placed
        · next start stop _ _ sliced =>
            obtain ⟨later, placedLater, rfl⟩ := Option.map_eq_some_iff.mp placed
            have keptLater : keeps later.1 :=
              ih (preserved document ⟨start, stop⟩ edit.replacement kept sliced) placedLater
            exact keptLater
        · simp at placed
      · simp at placed

-----------------------------------------------------------------------------------------
-- The invariant of a commit
-----------------------------------------------------------------------------------------

/-- A document midway through the commit of edits to another. The old text in front of the last
replacement has become new text. The rest, and where its positions lead, is as in the beginning,
moved by the growth.
-/
structure Midway (origin live : Document) (growth : Int) (old new rest : Text) : Prop where
  atFirst : origin.working = old ++ rest
  byNow : live.working = new ++ rest
  growth : (new.size : Int) = old.size + growth
  toSource
    : ∀ position,
        live.map.toSource (new.size + position) = origin.map.toSource (old.size + position)
  workingSize : live.map.workingSize = live.working.size

/-- A commit begins with all of the text as it was. -/
theorem Midway.refl {document : Document}
    (sized : document.map.workingSize = document.working.size)
    : Midway document document 0 [] [] document.working where
  atFirst := rfl
  byNow := rfl
  growth := rfl
  toSource _ := rfl
  workingSize := sized

/-- A position behind the old text moves to a position behind the new text, and leads to the same
place in the source.
-/
theorem Midway.moved? {origin live : Document} {growth : Int} {old new rest : Text}
    (midway : Midway origin live growth old new rest) (distance : Nat)
    : Document.moved? growth (old.size + distance) = some (new.size + distance) := by
  have growth := midway.growth
  simp only [Document.moved?]
  rw [if_neg (by omega)]
  congr 1
  omega

/-- Replacing a slice of the rest settles the text in front of it and the slice. -/
theorem Midway.replace {origin live : Document} {growth : Int} {old new front text later : Text}
    (midway : Midway origin live growth old new (front ++ (text ++ later))) (replacement : Text)
    : Midway origin
        (live.replace ⟨new.size + front.size, new.size + (front.size + text.size)⟩ (some replacement))
        (growth + replacement.size - text.size)
        (old ++ (front ++ text)) (new ++ (front ++ replacement)) later := by
  have sized := midway.workingSize
  have working : live.working = (new ++ front) ++ (text ++ later) := by
    rw [midway.byNow, List.append_assoc]
  have spliced
      : (live.replace ⟨new.size + front.size, new.size + (front.size + text.size)⟩
          (some replacement)).working
        = (new ++ front) ++ (replacement ++ later) :=
    working_replace working (Text.size_append _ _)
      (by rw [Text.size_append, Nat.add_assoc]) replacement
  rw [working, Text.size_append, Text.size_append, Text.size_append] at sized
  have startInText : new.size + front.size ≤ live.map.workingSize := by omega
  refine {
    atFirst := by rw [midway.atFirst]; simp only [List.append_assoc]
    byNow := by rw [spliced]; simp only [List.append_assoc]
    growth := by
      have growth := midway.growth
      simp only [Text.size_append]
      omega
    toSource := fun position => ?_
    workingSize := ?_
  }
  · have moved := midway.toSource (front.size + text.size + position)
    rw [map_replace, PositionMap.toSource_edit _ _ _ startInText]
    simp only [Text.size_append]
    rw [if_neg (by omega), if_neg (by omega)]
    have back
        : new.size + (front.size + text.size)
            + (new.size + (front.size + replacement.size) + position
                - (new.size + front.size + replacement.size))
          = new.size + (front.size + text.size + position) := by
      omega
    rw [back, moved]
    simp only [Nat.add_assoc]
  · rw [spliced, map_replace, PositionMap.workingSize_edit _ _ startInText, sized]
    simp only [Text.size_append]
    omega

/-- The first of edits that fit the rest has its text there, and is made where that text stands by
now.
-/
theorem Midway.exists_parts {origin live : Document} {growth : Int} {old new rest : Text}
    {edit : Edit} {edits : List Edit} (midway : Midway origin live growth old new rest)
    (fit : Edit.Fit origin.working old.size (edit :: edits))
    : ∃ front later,
        rest = front ++ (edit.text ++ later)
        ∧ old.size + front.size = edit.span.start
        ∧ edit.span.start + edit.text.size = edit.span.stop
        ∧ (old ++ (front ++ edit.text)).size = edit.span.stop
        ∧ (live.replaceAll growth (edit :: edits)).1
          = ((live.replace ⟨new.size + front.size, new.size + (front.size + edit.text.size)⟩
              edit.replacement).replaceAll (edit.growthAfter growth) edits).1 := by
  obtain ⟨behind, sliced, -⟩ := fit
  rw [midway.atFirst] at sliced
  obtain ⟨front, later, parted, startSize, stopSize⟩ :=
    Text.exists_parts_of_slice? behind sliced
  have grown := midway.growth
  have start : (edit.span.start + growth).toNat = new.size + front.size := by omega
  have stop : (edit.span.stop + growth).toNat = new.size + (front.size + edit.text.size) := by
    omega
  refine ⟨front, later, parted, startSize, stopSize, ?_, ?_⟩
  · simp only [Text.size_append]
    omega
  · rw [replaceAll_cons, start, stop]

/-- An edit of a slice of the rest finds its place, and its span leads to where it led in the
beginning.
-/
theorem Midway.replaceAll?_cons {origin live replaced : Document} {growth : Int}
    {old new front later : Text} {edit : Edit} {rest committed : List Edit}
    (midway : Midway origin live growth old new (front ++ (edit.text ++ later)))
    (startSize : old.size + front.size = edit.span.start)
    (stopSize : edit.span.start + edit.text.size = edit.span.stop)
    (placedLater
      : (live.replace ⟨new.size + front.size, new.size + (front.size + edit.text.size)⟩
            edit.replacement).replaceAll? (edit.growthAfter growth) rest
        = some (replaced, committed))
    : live.replaceAll? growth (edit :: rest)
      = some (replaced, edit.toSource origin.map :: committed) := by
  have start := midway.moved? front.size
  have stop := midway.moved? (front.size + edit.text.size)
  have startLeads := midway.toSource front.size
  have stopLeads := midway.toSource (front.size + edit.text.size)
  rw [startSize] at start startLeads
  rw [← Nat.add_assoc old.size, startSize, stopSize] at stop stopLeads
  have found
      : live.working.slice? (new.size + front.size) (new.size + (front.size + edit.text.size))
        = some edit.text := by
    rw [midway.byNow, Text.slice?_append_add]
    exact Text.slice?_eq_some.mpr ⟨front, later, rfl, rfl, rfl⟩
  simp only [Document.replaceAll?, start, stop, found, Option.isSome_some, if_true, placedLater,
    Option.map_some, startLeads, stopLeads, Edit.toSource]

/-- Edits that fit behind the old text all find their place. Their spans lead to where they led
in the beginning, and the text becomes the new text with the rest woven anew, by induction on the
edits.
-/
theorem Midway.replaceAll? {origin live : Document} {growth : Int} {old new rest : Text}
    {edits : List Edit}
    (midway : Midway origin live growth old new rest)
    (fit : Edit.Fit origin.working old.size edits)
    : ∃ replaced,
        live.replaceAll? growth edits = some (replaced, edits.map (Edit.toSource origin.map))
        ∧ replaced.working = new ++ Edit.weave origin.working old.size edits
        ∧ replaced.source = live.source
        ∧ replaced.log = live.log := by
  induction edits generalizing live growth old new rest with
  | nil =>
      refine ⟨live, rfl, ?_, rfl, rfl⟩
      rw [Edit.weave, midway.atFirst, Text.after_append_size, midway.byNow]
  | cons edit tail ih =>
      obtain ⟨front, later, rfl, startSize, stopSize, oldSize, -⟩ := midway.exists_parts fit
      obtain ⟨-, -, fitLater⟩ := fit
      cases isReplacing : edit.replacement with
      | none =>
          simp only [Edit.floorAfter, isReplacing] at fitLater
          obtain ⟨replaced, placedLater, woven, source, log⟩ := ih midway fitLater
          refine ⟨replaced, midway.replaceAll?_cons startSize stopSize ?_, ?_, source, log⟩
          · simpa only [isReplacing, Edit.growthAfter, replace_none] using placedLater
          · rw [woven, Edit.weave, isReplacing]
      | some replacement =>
          simp only [Edit.floorAfter, isReplacing, Option.isSome_some, if_true] at fitLater
          obtain ⟨replaced, placedLater, woven, source, log⟩ :=
            ih (midway.replace replacement) (oldSize ▸ fitLater)
          refine ⟨replaced, midway.replaceAll?_cons startSize stopSize ?_, ?_,
            source.trans (source_replace _ _ _), log.trans (log_replace _ _ _)⟩
          · simpa only [isReplacing, Edit.growthAfter] using placedLater
          · have kept : origin.working.between old.size edit.span.start = front := by
              rw [midway.atFirst, ← startSize, Text.between_append]
            rw [woven, oldSize, Edit.weave, isReplacing]
            simp only [kept, List.append_assoc]

/-- A commit of edits that fit the text makes all of them, and logs them where their spans led
before it.
-/
theorem commit?_of_fit {document : Document} {edits : List Edit}
    (sized : document.map.workingSize = document.working.size)
    (fit : Edit.Fit document.working 0 edits)
    : document.commit? edits = some (document.commit edits)
      ∧ (document.commit edits).source = document.source
      ∧ (document.commit edits).working = Edit.weave document.working 0 edits
      ∧ (document.commit edits).log
        = document.log ++ edits.map (Edit.toSource document.map) := by
  obtain ⟨replaced, placed, woven, source, log⟩ := (Midway.refl sized).replaceAll? fit
  simp only [commit?, commit, placed, replaceAll_of_replaceAll? placed, Option.map_some]
  exact ⟨trivial, source, woven, trivial⟩

end Document

end TaggedText
