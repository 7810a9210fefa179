import TaggedText.Pattern.Basic
import TaggedText.Text.Span

/-!
Searching a text for a pattern from left to right. The search cuts the text into the matches it
meets and the single characters between them, and the pieces joined give the text back.
-/

namespace TaggedText

/-- A part of a searched text. -/
inductive Piece where
  | skipped (c : Char)
  | found (text : Text)
deriving DecidableEq

namespace Piece

/-- The characters of a piece. -/
def text : Piece → Text
  | skipped c => [c]
  | found text => text

end Piece

namespace Pattern

/-- The text cut at the matches of a pattern. Each match is the preferred one at the first place
where there is any, and the search goes on behind it; a match must hold some character.
-/
def pieces (pattern : Pattern) : Text → List Piece
  | [] => []
  | c :: rest =>
      match pattern.matchStart? (c :: rest) with
      | some left =>
          if left.length ≤ rest.length then
            .found ((c :: rest).take (rest.length + 1 - left.length)) :: pattern.pieces left
          else
            .skipped c :: pattern.pieces rest
      | none => .skipped c :: pattern.pieces rest
termination_by text => text.length

/-- The spans of the matches among pieces that begin at a position. -/
def foundSpans : Nat → List Piece → List Span
  | _, [] => []
  | position, .skipped c :: rest => foundSpans (position + c.utf8Size) rest
  | position, .found text :: rest =>
      ⟨position, position + text.size⟩ :: foundSpans (position + text.size) rest

/-- The spans of the matches of a pattern in a text. -/
def spans (pattern : Pattern) (text : Text) : List Span :=
  foundSpans 0 (pattern.pieces text)

end Pattern

end TaggedText
