import TaggedText.Text.Basic

/-!
Tokens of a sentence: words, and the tags of its markup. Both remember the source characters
they stand for and the white space on either side.
-/

namespace TaggedText

/-- A word. Its sides are hidden where it touches a tag, and required where a space has to stand
when the sentence is put together again.
-/
structure Word where
  text : Text
  source : Text
  leftSpace : Option Text := none
  rightSpace : Option Text := none
  hiddenLeft : Bool := false
  hiddenRight : Bool := false
  leftRequired : Bool := true
  rightRequired : Bool := true
deriving DecidableEq

/-- What a tag does in its markup. -/
inductive TagKind where
  | opening
  | closing
  | selfClosing
  | comment
deriving DecidableEq

/-- A tag. Its position is the number of words in front of it. -/
structure Tag where
  kind : TagKind
  name : Option Text
  text : Text
  source : Text
  leftSpace : Option Text := none
  rightSpace : Option Text := none
  position : Nat
deriving DecidableEq

/-- A word or a tag. -/
inductive Token where
  | word (word : Word)
  | tag (tag : Tag)
deriving DecidableEq

namespace Token

/-- The text that a token shows. -/
def text : Token → Text
  | word w => w.text
  | tag t => t.text

/-- The source characters that a token stands for. -/
def source : Token → Text
  | word w => w.source
  | tag t => t.source

/-- The white space in front of a token. -/
def leftSpace : Token → Option Text
  | word w => w.leftSpace
  | tag t => t.leftSpace

/-- The white space behind a token. -/
def rightSpace : Token → Option Text
  | word w => w.rightSpace
  | tag t => t.rightSpace

/-- Whether a token is a word. -/
def isWord : Token → Bool
  | word _ => true
  | tag _ => false

/-- The word that a token is. -/
def word? : Token → Option Word
  | word w => some w
  | tag _ => none

/-- The tag that a token is. -/
def tag? : Token → Option Tag
  | word _ => none
  | tag t => some t

end Token

end TaggedText
