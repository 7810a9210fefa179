import TaggedText.Proofs.Sentence.Joining

/-!
Separation of tokens that are put together. If neighbouring tokens agree on the gap between them, then
tokens that are left out change nothing of how the others are separated: between two tokens that are
shown stands the first space that there is in the gaps from the one to the other.
-/

namespace TaggedText

/-- Neighbouring tokens agree on the gap between them. -/
def AgreeOnGaps (tokens : List Token) : Prop :=
  ∀ place token next,
    tokens[place]? = some token
    → tokens[place + 1]? = some next
    → token.rightSpace = next.leftSpace

namespace Sentence

/-- The space in the gap behind the token at a place. -/
def gapBehind? (tokens : List Token) (place : Nat) : Option Text :=
  tokens[place]?.bind Token.rightSpace

/-- The first space in the gaps from the token at a place to the one at another place. -/
def spaceBetween? (tokens : List Token) (place next : Nat) : Option Text :=
  (List.range' place (next - place)).findSome? (gapBehind? tokens)

/-- The text of the token at a place. -/
def textAt (tokens : List Token) (place : Nat) : Text :=
  tokens[place]?.elim [] Token.text

/-- The texts of tokens at places behind another one, with the first space from each to the next. -/
def joinBehind (tokens : List Token) (place : Nat) : List Nat → Text
  | [] => []
  | next :: rest =>
      (spaceBetween? tokens place next).getD []
        ++ (textAt tokens next ++ joinBehind tokens next rest)

/-- The texts of tokens at places, with the first space from each to the next, and nothing in front of the
first or behind the last.
-/
def joinPlaces (tokens : List Token) : List Nat → Text
  | [] => []
  | first :: rest => textAt tokens first ++ joinBehind tokens first rest

/-- Whether the token at a place is shown, with tags or without them. -/
def isShown (withTags : Bool) (tokens : List Token) (place : Nat) : Bool :=
  tokens[place]?.any fun token => withTags || token.isWord

/-- The places of the tokens that are shown, with tags or without them. -/
def shownPlaces (withTags : Bool) (tokens : List Token) : List Nat :=
  (List.range tokens.length).filter (isShown withTags tokens)

theorem shownPlaces_true (tokens : List Token)
    : shownPlaces true tokens = List.range tokens.length := by
  refine List.filter_eq_self.mpr fun place member => ?_
  simp [isShown, List.getElem?_eq_getElem (List.mem_range.mp member)]

section Joining

variable {tokens : List Token} {place next : Nat}

theorem spaceBetween?_succ (inFront : place ≤ next)
    : spaceBetween? tokens place (next + 1)
      = (spaceBetween? tokens place next).or (gapBehind? tokens next) := by
  have more : next + 1 - place = next - place + 1 := by omega
  have last : place + (next - place) = next := by omega
  rw [spaceBetween?, spaceBetween?, more, List.range'_concat, List.findSome?_append, Nat.one_mul, last]
  simp

/-- The space behind a token is the first one up to the next token. -/
theorem spaceBetween?_next {token : Token} (there : tokens[place]? = some token)
    : spaceBetween? tokens place (place + 1) = token.rightSpace := by
  simp [spaceBetween?, gapBehind?, there]

/-- A token that is left out passes on the first space up to it, or else the one behind it: the space in
front of it is that of a gap which has been looked at.
-/
theorem spaceBetween?_skip (agree : AgreeOnGaps tokens) (inFront : place < next) {token : Token}
    (there : tokens[next]? = some token)
    : (spaceBetween? tokens place next).or (token.leftSpace.or token.rightSpace)
      = spaceBetween? tokens place (next + 1) := by
  obtain ⟨before, rfl⟩ : ∃ before, next = before + 1 := ⟨next - 1, by omega⟩
  have inText : before < tokens.length := by
    obtain ⟨nextInText, -⟩ := List.getElem?_eq_some_iff.mp there
    omega
  have isBefore := List.getElem?_eq_getElem inText
  have agreed : gapBehind? tokens before = token.leftSpace := by
    rw [gapBehind?, isBefore]
    exact agree before _ token isBefore there
  have behind : gapBehind? tokens (before + 1) = token.rightSpace := by
    rw [gapBehind?, there]
    rfl
  have lookedAt
      : token.leftSpace.or (token.leftSpace.or token.rightSpace)
        = token.leftSpace.or token.rightSpace := by
    rw [← Option.or_assoc, Option.or_self]
  rw [spaceBetween?_succ (Nat.le_of_lt inFront), spaceBetween?_succ (Nat.le_of_lt_succ inFront),
    agreed, behind, Option.or_assoc, Option.or_assoc, lookedAt]

variable {withTags : Bool}

/-- The tokens from a place on, put together behind one that is shown, by induction on their number. The
space that waits is the first one since that token.
-/
theorem joinTokens_behind (agree : AgreeOnGaps tokens) {count : Nat} (inFront : place < next)
    (all : next + count = tokens.length)
    : joinTokens withTags true (spaceBetween? tokens place next) (tokens.drop next)
      = joinBehind tokens place ((List.range' next count).filter (isShown withTags tokens)) := by
  induction count generalizing place next with
  | zero =>
      rw [List.drop_of_length_le (by omega)]
      rfl
  | succ count ih =>
      have inText : next < tokens.length := by omega
      have there := List.getElem?_eq_getElem inText
      rw [List.drop_eq_getElem_cons inText, List.range'_succ, List.filter_cons]
      simp only [joinTokens, isShown, there, Option.any_some]
      split
      · rw [← spaceBetween?_next there, Bool.true_or, ih (Nat.lt_succ_self next) (by omega)]
        simp [joinBehind, textAt, there]
      · rw [spaceBetween?_skip agree inFront there]
        exact ih (Nat.lt_succ_of_lt inFront) (by omega)

/-- The tokens from a place on, put together with nothing in front of them, by induction on their number.
What waits is not shown in front of the first one.
-/
theorem joinTokens_from (agree : AgreeOnGaps tokens) (shown : ∀ token ∈ tokens, token.text ≠ [])
    {count : Nat} (all : place + count = tokens.length) (waiting : Option Text)
    : joinTokens withTags false waiting (tokens.drop place)
      = joinPlaces tokens ((List.range' place count).filter (isShown withTags tokens)) := by
  induction count generalizing place waiting with
  | zero =>
      rw [List.drop_of_length_le (by omega)]
      rfl
  | succ count ih =>
      have inText : place < tokens.length := by omega
      have there := List.getElem?_eq_getElem inText
      rw [List.drop_eq_getElem_cons inText, List.range'_succ, List.filter_cons]
      simp only [joinTokens, isShown, there, Option.any_some]
      split
      · have hasText : (false || !tokens[place].text.isEmpty) = true := by
          simpa using shown _ (List.getElem_mem inText)
        have allBehind : place + 1 + count = tokens.length := by omega
        rw [hasText, ← spaceBetween?_next there,
          joinTokens_behind agree (Nat.lt_succ_self place) allBehind]
        simp [joinPlaces, textAt, there]
      · exact ih (by omega) _

/-- Tokens that agree on their gaps and have texts are put together of those that are shown, with the first
space from each to the next.
-/
theorem joinTokens_eq_joinPlaces (agree : AgreeOnGaps tokens)
    (shown : ∀ token ∈ tokens, token.text ≠ [])
    : joinTokens withTags false none tokens = joinPlaces tokens (shownPlaces withTags tokens) := by
  rw [shownPlaces, List.range_eq_range']
  exact joinTokens_from agree shown (Nat.zero_add _) none

end Joining

/-- Whatever tags lead, trail or stand between words, the text of the words has between two of them the
first space of the gaps from the one to the other, and none in front of the first or behind the last. The
text of all tokens has the spaces of all gaps between them.
-/
structure SeparatedByGaps (sentence : Sentence) : Prop where
  agree : AgreeOnGaps sentence.tokens
  words : sentence.toText false = joinPlaces sentence.tokens (shownPlaces false sentence.tokens)
  tokens : sentence.toText true = joinPlaces sentence.tokens (List.range sentence.tokens.length)

theorem separatedByGaps {sentence : Sentence} (agree : AgreeOnGaps sentence.tokens)
    (shown : ∀ token ∈ sentence.tokens, token.text ≠ [])
    : sentence.SeparatedByGaps where
  agree := agree
  words := joinTokens_eq_joinPlaces agree shown
  tokens := by
    rw [← shownPlaces_true]
    exact joinTokens_eq_joinPlaces agree shown

end Sentence

end TaggedText
