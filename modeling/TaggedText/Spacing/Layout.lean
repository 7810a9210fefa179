import TaggedText.Sentence.Token
import TaggedText.Text.Span

/-!
Words laid out in a line, with one separating space in front of each and one at the end. Every
separator carries a mark that tells whether a space is required there, and a hit takes the marks
off the separators next to its ends.
-/

namespace TaggedText

/-- The separators that a hit removes. -/
inductive Removal where
  | left
  | right
  | both
deriving DecidableEq, Repr

namespace Removal

/-- Whether the separator in front is removed. -/
def removesLeft : Removal → Bool
  | left | both => true
  | right => false

/-- Whether the separator behind is removed. -/
def removesRight : Removal → Bool
  | right | both => true
  | left => false

end Removal

/-- A part of the line, with both separators around it, and what to remove there. -/
structure Hit where
  span : Span
  removal : Removal
deriving DecidableEq, Repr

/-- A line of words with the positions of its separators and their marks. -/
structure Layout where
  text : Text := []
  separators : List Nat := []
  required : List Bool := []
deriving DecidableEq

namespace Layout

/-- The words from a position on, each one behind its separator, and the last separator. -/
def lineOf : List Text → Text
  | [] => [' ']
  | word :: rest => ' ' :: word ++ lineOf rest

/-- The positions of the separators of words from a position on. -/
def separatorsOf (position : Nat) : List Text → List Nat
  | [] => [position]
  | word :: rest => position :: separatorsOf (position + 1 + word.size) rest

/-- The line of some words, with a space required everywhere. -/
def ofWords (words : List Text) : Layout where
  text := lineOf words
  separators := separatorsOf 0 words
  required := List.replicate (words.length + 1) true

/-- The line without the mark of the last separator at or before a position. -/
def removeLeft (layout : Layout) (position : Nat) : Layout :=
  match layout.separators.countP (· ≤ position) with
  | 0 => layout
  | count + 1 => { layout with required := layout.required.set count false }

/-- The line without the mark of the first separator at or behind a position. -/
def removeRight (layout : Layout) (position : Nat) : Layout :=
  let index := layout.separators.countP (· < position)
  { layout with required := layout.required.set index false }

/-- The line without the marks that a hit removes. -/
def mark (layout : Layout) (hit : Hit) : Layout :=
  let layout := if hit.removal.removesLeft then layout.removeLeft hit.span.start else layout
  if hit.removal.removesRight then layout.removeRight (hit.span.stop - 1) else layout

/-- The line without the marks that some hits remove. -/
def markAll (layout : Layout) (hits : List Hit) : Layout :=
  hits.foldl mark layout

/-- Whether a space is required at a separator. None is where there is no separator. -/
def isRequired (layout : Layout) (separator : Nat) : Bool :=
  layout.required[separator]?.getD false

/-- Words with their left marks taken from the line. -/
def applyLeft (layout : Layout) (words : List Word) : List Word :=
  words.mapIdx fun index word => { word with leftRequired := layout.isRequired index }

/-- Words with their right marks taken from the line. -/
def applyRight (layout : Layout) (words : List Word) : List Word :=
  words.mapIdx fun index word => { word with rightRequired := layout.isRequired (index + 1) }

end Layout

end TaggedText
