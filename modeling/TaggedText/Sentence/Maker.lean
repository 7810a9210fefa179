import TaggedText.Markup

/-!
Token makers turn a resolved edit into a token. Whether a maker counts as one of words decides
which sides of neighbouring tokens are hidden, whatever tokens it makes.
-/

namespace TaggedText

/-- What a token is made of: its source characters, the working text that was marked, the
spaces around it, and the number of words in front of it.
-/
structure TokenParts where
  source : Text
  marked : Text
  leftSpace : Option Text
  rightSpace : Option Text
  position : Nat

/-- A way to make tokens. -/
structure TokenMaker where
  isWord : Bool
  make : TokenParts → Token

namespace TokenMaker

/-- Makes words that show the marked text. -/
def word : TokenMaker where
  isWord := true
  make parts := .word {
    text := parts.marked
    source := parts.source
    leftSpace := parts.leftSpace
    rightSpace := parts.rightSpace
  }

/-- Makes tags whose kind and name are read off the marked text. -/
def markup : TokenMaker where
  isWord := false
  make parts :=
    let (kind, name) := Markup.classify parts.marked
    .tag {
      kind
      name
      text := parts.marked
      source := parts.source
      leftSpace := parts.leftSpace
      rightSpace := parts.rightSpace
      position := parts.position
    }

end TokenMaker

end TaggedText
