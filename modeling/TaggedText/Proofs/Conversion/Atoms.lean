import TaggedText.Proofs.Conversion.Shapes
import TaggedText.Proofs.Draft.Segments

/-!
Sources as rows of atoms: characters, entities and tags, each with the one character that the
working text shows for it. The pass over markup turns the pieces of a text into atoms, and logs the
edits of its tags where these stand in the source.
-/

namespace TaggedText

-----------------------------------------------------------------------------------------
-- What the passes ask for
-----------------------------------------------------------------------------------------

namespace Ask

/-- Asks for the same of all pieces that are found, and for nothing of others. -/
def found (ask : Ask) : Piece → Option Ask
  | .skipped _ => none
  | .found _ => some ask

/-- Asks for characters in place of pieces. -/
def character (character? : Piece → Option Char) (piece : Piece) : Option Ask :=
  (character? piece).map fun c => { replacement := some c }

theorem requests_found (replacement : Option Char) (maker : TokenMaker) (position : Nat)
    (pieces : List Piece)
    : (Pattern.foundSpans position pieces).map (fun span =>
          EditRequest.token maker span.start span.length (replacement.map ([·])))
      = requests (found ⟨replacement, some maker⟩) position pieces := by
  induction pieces generalizing position with
  | nil => rfl
  | cons piece rest ih =>
      cases piece with
      | skipped c => exact ih (position + c.utf8Size)
      | found text =>
          have length : Span.length ⟨position, position + text.size⟩ = text.size :=
            Nat.add_sub_cancel_left position text.size
          simp only [Pattern.foundSpans, List.map_cons, ih, length]
          rfl

theorem requests_character (character? : Piece → Option Char) (position : Nat)
    (pieces : List Piece)
    : Pass.pieceRequests (fun piece => (character? piece).map ([·])) position pieces
      = requests (character character?) position pieces := by
  induction pieces generalizing position with
  | nil => rfl
  | cons piece rest ih =>
      simp only [Pass.pieceRequests, requests, character, ih]
      cases character? piece <;> rfl

theorem markupRequests_eq (text : Text)
    : Pass.markupRequests text = requests Ask.markup.found 0 (Markup.pattern.pieces text) :=
  requests_found (some ' ') .markup 0 (Markup.pattern.pieces text)

theorem entityRequests_eq (text : Text)
    : Pass.entityRequests text
      = requests (character Entity.replacement?) 0 (Entity.pattern.pieces text) :=
  requests_character Entity.replacement? 0 (Entity.pattern.pieces text)

/-- The space in place of a run of blanks, unless it is one already. -/
def space? : Piece → Option Char
  | .skipped _ => none
  | .found run => if run == [' '] then none else some ' '

theorem blankRequests_eq (text : Text)
    : Pass.blankRequests text = requests (character space?) 0 (Pass.blankRun.pieces text) := by
  rw [Pass.blankRequests, ← requests_character]
  congr 1
  funext piece
  cases piece with
  | skipped c => rfl
  | found run =>
      simp only [Pass.singleSpace?, space?]
      split <;> rfl

theorem wordRequests_eq (text : Text)
    : Pass.wordRequests text = requests Ask.word.found 0 (Pass.wordPattern.pieces text) :=
  requests_found none .word 0 (Pass.wordPattern.pieces text)

end Ask

-----------------------------------------------------------------------------------------
-- Atoms
-----------------------------------------------------------------------------------------

/-- A part of a source text for which the working text shows one character. -/
inductive Atom where
  | plain (c : Char)
  | entity (text : Text) (c : Char)
  | tag (text : Text)

namespace Atom

/-- The character that is shown for an atom. -/
def shown : Atom → Char
  | plain c => c
  | entity _ c => c
  | tag _ => ' '

/-- The source text of an atom. -/
def source : Atom → Text
  | plain c => [c]
  | entity text _ => text
  | tag text => text

/-- The text that is given back for an atom. -/
def restored : Atom → Text
  | plain c => [c]
  | entity _ c => [c]
  | tag text => text

/-- An atom as a cell. -/
def cell (atom : Atom) : Cell :=
  ⟨atom.shown, atom.source⟩

/-- Entities stand for their characters, and tags stand between brackets. -/
def IsSound : Atom → Prop
  | plain _ => True
  | entity text c => Entity.pattern.Describes text ∧ Entity.resolve? text = some c
  | tag text => ∃ inside : Text, text = '<' :: (inside ++ ['>'])

theorem IsSound.source_ne_nil {atom : Atom} (sound : atom.IsSound) : atom.source ≠ [] := by
  cases atom with
  | plain c => exact List.cons_ne_nil _ _
  | entity text c =>
      rintro rfl
      exact Entity.not_describes_nil sound.1
  | tag text =>
      obtain ⟨inside, rfl⟩ := sound
      exact List.cons_ne_nil _ _

/-- The edits of the tags among atoms from a position of the source on. -/
def tagEdits : Nat → List Atom → List Edit
  | _, [] => []
  | position, tag text :: rest =>
      Ask.markup.edit position (position + text.size) text :: tagEdits (position + text.size) rest
  | position, atom :: rest => tagEdits (position + atom.source.size) rest

/-- The atom of a piece of a text that was searched for markup. -/
def ofPiece : Piece → Atom
  | .skipped c => plain c
  | .found text => tag text

theorem tagEdits_append (position : Nat) (atoms more : List Atom)
    : tagEdits position (atoms ++ more)
      = tagEdits position atoms ++ tagEdits (position + Text.size (atoms.flatMap source)) more := by
  induction atoms generalizing position with
  | nil => rfl
  | cons atom rest ih =>
      rw [List.flatMap_cons, Text.size_append, ← Nat.add_assoc]
      cases atom with
      | plain c => exact ih _
      | entity text c => exact ih _
      | tag text => exact congrArg _ (ih _)

/-- Characters that stand for themselves have no tags among them. -/
theorem tagEdits_map_plain (position : Nat) (text : Text)
    : tagEdits position (text.map plain) = [] := by
  induction text generalizing position with
  | nil => rfl
  | cons c rest ih => exact ih _

@[simp] theorem flatMap_source_map_plain (text : Text)
    : (text.map plain).flatMap source = text := by
  induction text with
  | nil => rfl
  | cons c rest ih => simp [source, ih]

@[simp] theorem flatMap_restored_map_plain (text : Text)
    : (text.map plain).flatMap restored = text := by
  induction text with
  | nil => rfl
  | cons c rest ih => simp [restored, ih]

@[simp] theorem map_shown_map_plain (text : Text) : (text.map plain).map shown = text := by
  simp [shown, Function.comp_def]

@[simp] theorem map_cell_map_plain (text : Text)
    : (text.map plain).map cell = text.map Cell.ofChar := by
  rw [List.map_map]
  rfl

theorem working_map_cell (atoms : List Atom)
    : Cell.working (atoms.map cell) = atoms.map shown := by
  simp [Cell.working, cell, Function.comp_def]

theorem sources_map_cell (atoms : List Atom)
    : Cell.sources (atoms.map cell) = atoms.flatMap source := by
  simp [Cell.sources, cell, List.flatMap_map]

-----------------------------------------------------------------------------------------
-- Markup
-----------------------------------------------------------------------------------------

/-- The pass over markup leaves atoms, by induction on the pieces. -/
theorem fuse_markup (pieces : List Piece)
    : Ask.fuse Ask.markup.found pieces ((pieces.flatMap Piece.text).map Cell.ofChar)
      = (pieces.map ofPiece).map cell := by
  induction pieces with
  | nil => rfl
  | cons piece rest ih =>
      rw [List.flatMap_cons, List.map_append, List.map_cons, List.map_cons]
      cases piece with
      | skipped c =>
          rw [Ask.fuse_cons_of_none (Cell.working_map_ofChar _) rfl, ih]
          rfl
      | found text =>
          have replaced
              : (Ask.markup.found (.found text)).bind (·.replacement) = some ' ' :=
            rfl
          rw [Ask.fuse_cons_of_some (Cell.working_map_ofChar _) replaced, ih,
            Cell.sources_map_ofChar]
          rfl

theorem logged_markup (position : Nat) (pieces : List Piece)
    : Ask.logged Ask.markup.found position pieces ((pieces.flatMap Piece.text).map Cell.ofChar)
      = tagEdits position (pieces.map ofPiece) := by
  induction pieces generalizing position with
  | nil => rfl
  | cons piece rest ih =>
      rw [List.flatMap_cons, List.map_append, Ask.logged_cons (Cell.working_map_ofChar _), ih,
        Cell.sources_map_ofChar]
      cases piece <;> rfl

/-- The spans of the pieces that are found are those of the tags. -/
theorem foundSpans_eq (position : Nat) (pieces : List Piece)
    : Pattern.foundSpans position pieces = (tagEdits position (pieces.map ofPiece)).map (·.span) := by
  induction pieces generalizing position with
  | nil => rfl
  | cons piece rest ih =>
      cases piece with
      | skipped c => exact ih _
      | found text => exact congrArg _ (ih _)

theorem flatMap_source_ofPiece (pieces : List Piece)
    : (pieces.map ofPiece).flatMap source = pieces.flatMap Piece.text := by
  rw [List.flatMap_map]
  congr 1
  funext piece
  cases piece <;> rfl

end Atom

end TaggedText
