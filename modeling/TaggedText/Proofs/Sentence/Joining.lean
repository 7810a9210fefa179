import TaggedText.Spacing.Annotator

/-!
Sentences as rows of tokens. Words and tags that were parted come together again in their order if
each tag is anchored behind as many words as stand in front of it, and the marks of an annotator
change nothing of the text that the tokens are put together to.
-/

namespace TaggedText

-----------------------------------------------------------------------------------------
-- Parting and merging
-----------------------------------------------------------------------------------------

/-- Every token is a word or a tag. -/
theorem Token.length_parted (tokens : List Token)
    : (tokens.filterMap word?).length + (tokens.filterMap tag?).length = tokens.length := by
  induction tokens with
  | nil => rfl
  | cons token rest ih =>
      cases token <;> simp only [List.filterMap_cons, word?, tag?, List.length_cons] <;> omega

/-- Whether each tag among tokens behind a number of words is anchored where it stands. -/
def Anchored : Nat → List Token → Prop
  | _, [] => True
  | count, .word _ :: rest => Anchored (count + 1) rest
  | count, .tag tag :: rest => tag.position = count ∧ Anchored count rest

/-- Anchored tags stand behind all the words in front of them. -/
theorem Anchored.le_position {count : Nat} {tokens : List Token} (anchored : Anchored count tokens)
    : ∀ tag ∈ tokens.filterMap Token.tag?, count ≤ tag.position := by
  induction tokens generalizing count with
  | nil => simp
  | cons token rest ih =>
      cases token with
      | word word =>
          intro tag member
          exact Nat.le_of_succ_le (ih anchored tag member)
      | tag first =>
          obtain ⟨here, anchoredRest⟩ := anchored
          intro tag member
          rcases List.mem_cons.mp member with same | later
          · exact Nat.le_of_eq (by rw [same, here])
          · exact ih anchoredRest tag later

namespace Sentence

theorem merge_nil_right (count : Nat) (words : List Word)
    : merge count words [] = words.map .word := by
  cases words <;> rw [merge]
  · rfl
  · simp

/-- Merging puts anchored tokens back in their order, by induction on them. -/
theorem merge_anchored {count : Nat} {tokens : List Token} (anchored : Anchored count tokens)
    : merge count (tokens.filterMap Token.word?) (tokens.filterMap Token.tag?) = tokens := by
  induction tokens generalizing count with
  | nil => exact merge_nil_right count []
  | cons token rest ih =>
      cases token with
      | word word =>
          have anchoredRest : Anchored (count + 1) rest := anchored
          have later := anchoredRest.le_position
          have merged := ih anchoredRest
          simp only [List.filterMap_cons, Token.word?, Token.tag?]
          cases tags : rest.filterMap Token.tag? with
          | nil =>
              rw [tags, merge_nil_right] at merged
              rw [merge_nil_right, List.map_cons, merged]
          | cons tag tags' =>
              have behind := later tag (by rw [tags]; exact List.mem_cons_self)
              rw [merge, if_neg (by omega), ← tags, merged]
      | tag tag =>
          obtain ⟨here, anchoredRest⟩ := anchored
          have merged := ih anchoredRest
          simp only [List.filterMap_cons, Token.word?, Token.tag?]
          cases words : rest.filterMap Token.word? with
          | nil =>
              rw [words, merge] at merged
              rw [merge, List.map_cons, merged]
          | cons word words' =>
              rw [merge, if_pos (by omega), ← words, merged]

theorem tokens_ofTokens {tokens : List Token} (anchored : Anchored 0 tokens)
    : (ofTokens tokens).tokens = tokens :=
  merge_anchored anchored

end Sentence

-----------------------------------------------------------------------------------------
-- Marks of required spaces
-----------------------------------------------------------------------------------------

/-- A word as it was before its required spaces were marked. -/
def Word.unmarked (word : Word) : Word :=
  { word with leftRequired := true, rightRequired := true }

/-- A token as it was before required spaces were marked. -/
def Token.unmarked : Token → Token
  | word w => .word w.unmarked
  | tag t => .tag t

namespace Token

@[simp] theorem leftSpace_unmarked (token : Token) : token.unmarked.leftSpace = token.leftSpace := by
  cases token <;> rfl

@[simp] theorem rightSpace_unmarked (token : Token) : token.unmarked.rightSpace = token.rightSpace := by
  cases token <;> rfl

@[simp] theorem text_unmarked (token : Token) : token.unmarked.text = token.text := by
  cases token <;> rfl

end Token

namespace Sentence

/-- Marks are not looked at when tokens are joined, by induction on the tokens. -/
theorem joinTokens_map_unmarked (withTags hasText : Bool) (waiting : Option Text)
    (tokens : List Token)
    : joinTokens withTags hasText waiting (tokens.map Token.unmarked)
      = joinTokens withTags hasText waiting tokens := by
  induction tokens generalizing hasText waiting with
  | nil => rfl
  | cons token rest ih =>
      simp only [List.map_cons, joinTokens, ih]
      cases token <;> rfl

theorem merge_map_unmarked (count : Nat) (words : List Word) (tags : List Tag)
    : merge count (words.map Word.unmarked) tags = (merge count words tags).map Token.unmarked := by
  induction count, words, tags using merge.induct with
  | case1 count tags => simp [merge, Token.unmarked]
  | case2 count words notEmpty => simp [merge_nil_right, Token.unmarked]
  | case3 count word words tag tags inFront ih =>
      rw [List.map_cons] at ih ⊢
      rw [merge, if_pos inFront, ih, merge, if_pos inFront]
      rfl
  | case4 count word words tag tags behind ih =>
      rw [List.map_cons, merge, if_neg behind, ih, merge, if_neg behind]
      rfl

/-- Sentences whose words differ in their marks alone have the same tokens but for these. -/
theorem tokens_eq_of_unmarked {sentence other : Sentence} (sameTags : sentence.tags = other.tags)
    (sameWords : sentence.words.map Word.unmarked = other.words.map Word.unmarked)
    : sentence.tokens.map Token.unmarked = other.tokens.map Token.unmarked := by
  rw [tokens, tokens, ← merge_map_unmarked, ← merge_map_unmarked, sameTags, sameWords]

/-- Sentences whose words differ in their marks alone are the same text. -/
theorem toText_eq_of_unmarked {sentence other : Sentence} (sameTags : sentence.tags = other.tags)
    (sameWords : sentence.words.map Word.unmarked = other.words.map Word.unmarked)
    (withTags : Bool)
    : sentence.toText withTags = other.toText withTags := by
  have sameTokens := tokens_eq_of_unmarked sameTags sameWords
  rw [toText, toText, ← joinTokens_map_unmarked, sameTokens, joinTokens_map_unmarked]

end Sentence

/-- Marking words leaves them otherwise as they are. -/
theorem Annotator.unmarked_of_markWords {annotator : Annotator} {words marked : List Word}
    (marks : annotator.markWords words = .ok marked)
    : marked.map Word.unmarked = words.map Word.unmarked := by
  simp only [markWords] at marks
  split at marks
  · contradiction
  · contradiction
  · obtain rfl := Except.ok.inj marks
    apply List.ext_getElem?
    intro index
    simp only [Layout.applyRight, Layout.applyLeft, List.mapIdx_mapIdx, List.getElem?_map,
      List.getElem?_mapIdx, Option.map_map]
    rfl

/-- Annotating a sentence leaves its tokens as they are but for the marks. -/
theorem Annotator.unmarked_of_annotate {annotator : Annotator} {sentence annotated : Sentence}
    (isAnnotated : annotator.annotate sentence = .ok annotated)
    : annotated.tags = sentence.tags
      ∧ annotated.words.map Word.unmarked = sentence.words.map Word.unmarked := by
  simp only [annotate, Except.map] at isAnnotated
  split at isAnnotated
  · contradiction
  · next words marks =>
      obtain rfl := Except.ok.inj isAnnotated
      exact ⟨rfl, unmarked_of_markWords marks⟩

theorem Annotator.toText_of_annotate {annotator : Annotator} {sentence annotated : Sentence}
    (isAnnotated : annotator.annotate sentence = .ok annotated) (withTags : Bool)
    : annotated.toText withTags = sentence.toText withTags := by
  obtain ⟨sameTags, sameWords⟩ := unmarked_of_annotate isAnnotated
  exact Sentence.toText_eq_of_unmarked sameTags sameWords withTags

end TaggedText
