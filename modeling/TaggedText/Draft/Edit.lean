import TaggedText.Sentence.Maker
import TaggedText.Text.Span

/-!
Edits of a text. An edit replaces its span, marks it as a token, or does both. Its span lies in
the working text while the edit waits for its session to be committed, and in the source text
from then on.
-/

namespace TaggedText

/-- An edit, with the working text that its span covered when it was recorded. The characters
that it claims of the source are known once the claims on the source are settled.
-/
structure Edit where
  span : Span
  text : Text
  replacement : Option Text := none
  maker : Option TokenMaker := none
  claimed : Text := []

namespace Edit

/-- Whether an edit makes a token. -/
def makesToken (edit : Edit) : Bool :=
  edit.maker.isSome

/-- Whether an edit makes a token with a maker of words. -/
def isWord (edit : Edit) : Bool :=
  edit.maker.any (·.isWord)

end Edit

end TaggedText
