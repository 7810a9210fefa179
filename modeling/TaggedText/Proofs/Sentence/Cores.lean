import TaggedText.Proofs.Sentence.Joining
import TaggedText.Sentence.Maker

/-!
Tokens apart from their places. Where a token stands decides the spaces around it, the marks of its
sides and its position; its core is all the rest. The built-in makers, and others like them, make the
core of a token of nothing but what is marked and what it stands for.
-/

namespace TaggedText

/-- A word apart from its place. -/
def Word.core (word : Word) : Word where
  text := word.text
  source := word.source

/-- A tag apart from its place. -/
def Tag.core (tag : Tag) : Tag :=
  { tag with leftSpace := none, rightSpace := none, position := 0 }

/-- A token apart from its place. -/
def Token.core : Token → Token
  | word w => .word w.core
  | tag t => .tag t.core

@[simp] theorem Token.core_unmarked (token : Token) : token.unmarked.core = token.core := by
  cases token <;> rfl

/-- A maker that anchors its tags where they stand, and that makes the core of a token of what is marked
and what it stands for.
-/
structure TokenMaker.IsSteady (maker : TokenMaker) : Prop where
  anchors : ∀ parts tag, maker.make parts = .tag tag → tag.position = parts.position
  core
    : ∀ parts other : TokenParts,
        parts.source = other.source
        → parts.marked = other.marked
        → (maker.make parts).core = (maker.make other).core

namespace TokenMaker

theorem isSteady_word : word.IsSteady where
  anchors parts tag isTag := by simp [word] at isTag
  core parts other sameSource sameText := by
    simp only [word, Token.core, Word.core, sameSource, sameText]

theorem isSteady_markup : markup.IsSteady where
  anchors parts tag isTag := by
    simp only [markup, Token.tag.injEq] at isTag
    rw [← isTag]
  core parts other sameSource sameText := by
    simp only [markup, Token.core, Tag.core, sameSource, sameText]

end TokenMaker

end TaggedText
