import TaggedText.Sentence.Annotations
import TaggedText.Sentence.Token

/-!
Sentences hold their words and their tags in two lists. Each tag is anchored by the number of
words in front of it, and merging the lists by these anchors gives the tokens in text order.
-/

namespace TaggedText

/-- Words, tags and annotations of one input. -/
structure Sentence where
  words : List Word := []
  tags : List Tag := []
  annotations : Annotations := {}
deriving DecidableEq

namespace Sentence

/-- The sentence of tokens in text order. -/
def ofTokens (tokens : List Token) : Sentence where
  words := tokens.filterMap Token.word?
  tags := tokens.filterMap Token.tag?

/-- Words that come behind a number of words, merged with tags. A tag stands in front of the
first word whose number its position does not exceed.
-/
def merge : Nat → List Word → List Tag → List Token
  | _, [], tags => tags.map .tag
  | _, words, [] => words.map .word
  | index, word :: words, tag :: tags =>
      if tag.position ≤ index then .tag tag :: merge index (word :: words) tags
      else .word word :: merge (index + 1) words (tag :: tags)
termination_by _ words tags => words.length + tags.length

/-- The tokens of a sentence in text order. -/
def tokens (sentence : Sentence) : List Token :=
  merge 0 sentence.words sentence.tags

/-- Whether a sentence holds tags. -/
def hasTags (sentence : Sentence) : Bool :=
  !sentence.tags.isEmpty

/-- The sentence with more annotations. -/
def annotate (sentence : Sentence) (names : List String) : Sentence :=
  { sentence with annotations := sentence.annotations.insertAll names }

/-- Token texts put together behind a text. A token is separated by the space that waits from
the tokens before, unless nothing stands in front of it. A tag that is left out passes that
space on, or its own if none waits.
-/
def joinTokens (withTags : Bool) (hasText : Bool) (waiting : Option Text) : List Token → Text
  | [] => []
  | token :: rest =>
      if withTags || token.isWord then
        (if hasText then waiting.getD [] else []) ++ token.text
          ++ joinTokens withTags
            (hasText || !token.text.isEmpty) token.rightSpace rest
      else
        joinTokens withTags hasText
          (waiting.or (token.leftSpace.or token.rightSpace)) rest

/-- The sentence as text, with its tags or without them. -/
def toText (sentence : Sentence) (withTags : Bool) : Text :=
  joinTokens withTags false none sentence.tokens

end Sentence

end TaggedText
