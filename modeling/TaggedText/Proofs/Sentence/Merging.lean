import Mathlib.Order.Bounds.Defs
import TaggedText.Proofs.Sentence.Joining

/-!
Merging words with tags at any positions. Whatever the positions are, the tokens of a sentence are
taken one at a time until no word and no tag is left, and both keep their order. No tag goes in front
of an earlier one, and none has to wait for more words than there are. So the number of words in front
of a tag is a running maximum over the tags so far, and the position of the tag itself only if they
are in order.
-/

namespace TaggedText

/-- The tokens of a sentence that are still to come: its words from a number on, and tags. -/
structure Upcoming where
  index : Nat
  words : List Word
  tags : List Tag

namespace Upcoming

/-- Takes the next token, if there is one. Between a tag and a word the tag goes first if its position
is not behind the word's number.
-/
def next? : Upcoming → Option (Token × Upcoming)
  | ⟨index, word :: words, tag :: tags⟩ =>
      if tag.position ≤ index then some (.tag tag, ⟨index, word :: words, tags⟩)
      else some (.word word, ⟨index + 1, words, tag :: tags⟩)
  | ⟨index, [], tag :: tags⟩ => some (.tag tag, ⟨index, [], tags⟩)
  | ⟨index, word :: words, []⟩ => some (.word word, ⟨index + 1, words, []⟩)
  | ⟨_, [], []⟩ => none

/-- Tokens that are taken one after the other until there are no more. -/
inductive Yields : Upcoming → List Token → Prop
  | done {upcoming} (ends : upcoming.next? = none) : Yields upcoming []
  | more {upcoming token later tokens} (taken : upcoming.next? = some (token, later))
    (rest : Yields later tokens)
    : Yields upcoming (token :: tokens)

/-- A call takes the first tag, in front of the next word if its position allows that, or it takes the
next word, in front of a tag that has to wait for it.
-/
theorem next?_cases {index : Nat} {words : List Word} {tags : List Tag} {token : Token}
    {later : Upcoming} (taken : next? ⟨index, words, tags⟩ = some (token, later))
    : (∃ tag rest,
        tags = tag :: rest
        ∧ (words = [] ∨ tag.position ≤ index)
        ∧ token = .tag tag
        ∧ later = ⟨index, words, rest⟩)
      ∨ ∃ word rest,
          words = word :: rest
          ∧ (∀ tag ∈ tags.head?, index < tag.position)
          ∧ token = .word word
          ∧ later = ⟨index + 1, rest, tags⟩ := by
  cases words with
  | nil =>
      cases tags with
      | nil => simp [next?] at taken
      | cons tag rest =>
          obtain ⟨rfl, rfl⟩ := Prod.mk.inj (Option.some.inj taken)
          exact .inl ⟨tag, rest, rfl, .inl rfl, rfl, rfl⟩
  | cons word words =>
      cases tags with
      | nil =>
          obtain ⟨rfl, rfl⟩ := Prod.mk.inj (Option.some.inj taken)
          exact .inr ⟨word, words, rfl, nofun, rfl, rfl⟩
      | cons tag tags =>
          simp only [next?] at taken
          split at taken
          · next inFront =>
              obtain ⟨rfl, rfl⟩ := Prod.mk.inj (Option.some.inj taken)
              exact .inl ⟨tag, tags, rfl, .inr inFront, rfl, rfl⟩
          · next behind =>
              obtain ⟨rfl, rfl⟩ := Prod.mk.inj (Option.some.inj taken)
              refine .inr ⟨word, words, rfl, ?_, rfl, rfl⟩
              simpa using behind

theorem words_eq_nil_of_next? {upcoming : Upcoming} (ends : upcoming.next? = none)
    : upcoming.words = [] ∧ upcoming.tags = [] := by
  obtain ⟨index, _ | ⟨word, words⟩, _ | ⟨tag, tags⟩⟩ := upcoming
  · exact ⟨rfl, rfl⟩
  · simp [next?] at ends
  · simp [next?] at ends
  · simp only [next?] at ends
    split at ends <;> contradiction

-----------------------------------------------------------------------------------------
-- One token at a time
-----------------------------------------------------------------------------------------

theorem yields_words (index : Nat) (words : List Word)
    : Yields ⟨index, words, []⟩ (words.map .word) := by
  induction words generalizing index with
  | nil => exact .done rfl
  | cons word rest ih => exact .more rfl (ih (index + 1))

theorem yields_tags (index : Nat) (tags : List Tag) : Yields ⟨index, [], tags⟩ (tags.map .tag) := by
  induction tags with
  | nil => exact .done rfl
  | cons tag rest ih => exact .more rfl ih

/-- Taking tokens one at a time merges words and tags, by induction on both. -/
theorem yields_merge (index : Nat) (words : List Word) (tags : List Tag)
    : Yields ⟨index, words, tags⟩ (Sentence.merge index words tags) := by
  induction index, words, tags using Sentence.merge.induct with
  | case1 index tags =>
      rw [Sentence.merge]
      exact yields_tags index tags
  | case2 index words notEmpty =>
      rw [Sentence.merge_nil_right]
      exact yields_words index words
  | case3 index word words tag tags inFront ih =>
      rw [Sentence.merge, if_pos inFront]
      exact .more (if_pos inFront) ih
  | case4 index word words tag tags behind ih =>
      rw [Sentence.merge, if_neg behind]
      exact .more (if_neg behind) ih

namespace Yields

variable {upcoming : Upcoming} {tokens : List Token}

/-- Every word and every tag is taken once, and in order, by induction on the tokens. -/
theorem parted (yields : upcoming.Yields tokens)
    : tokens.filterMap Token.word? = upcoming.words ∧ tokens.filterMap Token.tag? = upcoming.tags := by
  induction yields with
  | done ends =>
      obtain ⟨noWords, noTags⟩ := words_eq_nil_of_next? ends
      exact ⟨noWords.symm, noTags.symm⟩
  | @more upcoming token later tokens taken _ ih =>
      obtain ⟨index, words, tags⟩ := upcoming
      rcases next?_cases taken with ⟨tag, rest, rfl, -, rfl, rfl⟩ | ⟨word, rest, rfl, -, rfl, rfl⟩
      · exact ⟨ih.1, congrArg (tag :: ·) ih.2⟩
      · exact ⟨congrArg (word :: ·) ih.1, ih.2⟩

end Yields

end Upcoming

-----------------------------------------------------------------------------------------
-- Words in front of a tag
-----------------------------------------------------------------------------------------

/-- A count of words behind some others that is as great as any of some tags asks for, as far as words
go, and not greater than one of them asks for.
-/
structure Reaches (index total : Nat) (tags : List Tag) (count : Nat) : Prop where
  bounded : ∀ tag ∈ tags, min tag.position total ≤ index + count
  attained : count = 0 ∨ ∃ tag ∈ tags, min tag.position total = index + count

namespace Reaches

variable {index total count : Nat} {tag : Tag} {tags : List Tag}

/-- A tag that is taken at once waits for no word. -/
theorem singleton (atOnce : min tag.position total ≤ index) : Reaches index total [tag] 0 :=
  ⟨List.forall_mem_singleton.mpr atOnce, .inl rfl⟩

/-- It makes no later tag wait. -/
theorem cons (atOnce : min tag.position total ≤ index) (reaches : Reaches index total tags count)
    : Reaches index total (tag :: tags) count where
  bounded := List.forall_mem_cons.mpr ⟨Nat.le_add_right_of_le atOnce, reaches.bounded⟩
  attained := reaches.attained.imp_right fun ⟨other, member, same⟩ =>
    ⟨other, List.mem_cons_of_mem tag member, same⟩

/-- A word is taken in front of tags the first of which waits for it. -/
theorem succ (waits : index < tag.position) (inWords : index < total)
    (reaches : Reaches (index + 1) total (tag :: tags) count)
    : Reaches index total (tag :: tags) (count + 1) := by
  obtain ⟨bounded, attained⟩ := reaches
  have place : index + 1 + count = index + (count + 1) := by omega
  rw [place] at bounded
  refine ⟨bounded, .inr ?_⟩
  rcases attained with rfl | ⟨other, member, same⟩
  · have notMore := bounded tag List.mem_cons_self
    exact ⟨tag, List.mem_cons_self, by omega⟩
  · exact ⟨other, member, same.trans place⟩

/-- From the first word on, the count is the greatest that any of the tags asks for. -/
theorem isGreatest (reaches : Reaches 0 total tags count) (notEmpty : tags ≠ [])
    : IsGreatest {words | ∃ other ∈ tags, min other.position total = words} count := by
  obtain ⟨bounded, attained⟩ := reaches
  simp only [Nat.zero_add] at bounded attained
  constructor
  · rcases attained with rfl | reached
    · obtain ⟨first, rest, rfl⟩ := List.exists_cons_of_ne_nil notEmpty
      exact ⟨first, List.mem_cons_self, Nat.le_zero.mp (bounded first List.mem_cons_self)⟩
    · exact reached
  · rintro words ⟨other, member, rfl⟩
    exact bounded other member

/-- It is what one of them asks for if none of the others has a greater position. -/
theorem eq_of_forall_le (reaches : Reaches 0 total tags count) (member : tag ∈ tags)
    (noGreater : ∀ other ∈ tags, other.position ≤ tag.position)
    : count = min tag.position total := by
  obtain ⟨⟨other, isOther, reached⟩, greatest⟩ := reaches.isGreatest (List.ne_nil_of_mem member)
  have notLess : min tag.position total ≤ count := greatest ⟨tag, member, rfl⟩
  have notMore := noGreater other isOther
  omega

end Reaches

/-- The words in front of a tag, as told by the tags up to this one, by induction on the tokens. -/
theorem Upcoming.Yields.reaches {upcoming : Upcoming} {tokens front back : List Token} {tag : Tag}
    (yields : upcoming.Yields tokens) (parts : tokens = front ++ .tag tag :: back)
    : Reaches upcoming.index (upcoming.index + upcoming.words.length)
        (front.filterMap Token.tag? ++ [tag]) (front.filterMap Token.word?).length := by
  induction yields generalizing front with
  | done ends => simp at parts
  | @more upcoming token later tokens taken rest ih =>
      obtain ⟨index, words, tags⟩ := upcoming
      rcases next?_cases taken with
        ⟨first, others, rfl, noneOrInFront, rfl, rfl⟩ | ⟨word, others, rfl, waits, rfl, rfl⟩
      · have atOnce : min first.position (index + words.length) ≤ index := by
          rcases noneOrInFront with rfl | inFront
          · exact Nat.min_le_right _ _
          · exact Nat.le_trans (Nat.min_le_left _ _) inFront
        cases front with
        | nil =>
            obtain ⟨same, -⟩ := List.cons.inj parts
            obtain rfl := Token.tag.inj same
            exact .singleton atOnce
        | cons other front =>
            obtain ⟨rfl, partsLater⟩ := List.cons.inj parts
            exact (ih partsLater).cons atOnce
      · cases front with
        | nil => simp at parts
        | cons other front =>
            obtain ⟨rfl, partsLater⟩ := List.cons.inj parts
            have reaches
                : Reaches (index + 1) (index + 1 + others.length)
                    (front.filterMap Token.tag? ++ [tag]) (front.filterMap Token.word?).length :=
              ih partsLater
            obtain ⟨first, more, isFirst⟩
                : ∃ first more, front.filterMap Token.tag? ++ [tag] = first :: more :=
              List.exists_cons_of_ne_nil (by simp)
            have waiting : tags = first :: (more ++ back.filterMap Token.tag?) := by
              have areTags : tokens.filterMap Token.tag? = tags := rest.parted.2
              rw [← List.cons_append, ← isFirst, ← areTags, partsLater]
              simp [Token.tag?]
            have place : index + 1 + others.length = index + (others.length + 1) := by omega
            rw [isFirst, place] at reaches
            simp only [List.filterMap_cons, Token.word?, Token.tag?, List.length_cons, isFirst]
            exact reaches.succ (waits first (by simp [waiting])) (by omega)

namespace Sentence

/-- Merging words and tags loses nothing: whatever the positions of the tags are, their tokens come to
an end with as many as there are words and tags, each of these once and both in order. The number of
words in front of a tag is the greatest position of the tags up to this one, as far as words go, and
is the tag's own position so far if the positions are in order.
-/
theorem tokens_lose_nothing (sentence : Sentence)
    : let tokens := sentence.tokens
      let total := sentence.words.length
      Upcoming.Yields ⟨0, sentence.words, sentence.tags⟩ tokens
      ∧ tokens.length = total + sentence.tags.length
      ∧ tokens.filterMap Token.word? = sentence.words
      ∧ tokens.filterMap Token.tag? = sentence.tags
      ∧ ∀ front tag back,
          tokens = front ++ .tag tag :: back
          → let inFront := (front.filterMap Token.word?).length
            let upToTag := front.filterMap Token.tag? ++ [tag]
            IsGreatest {words | ∃ other ∈ upToTag, min other.position total = words} inFront
            ∧ ((sentence.tags.map (·.position)).Pairwise (· ≤ ·)
              → inFront = min tag.position total) := by
  intro tokens total
  have yields : Upcoming.Yields ⟨0, sentence.words, sentence.tags⟩ tokens :=
    Upcoming.yields_merge 0 sentence.words sentence.tags
  obtain ⟨words, tags⟩
      : tokens.filterMap Token.word? = sentence.words
        ∧ tokens.filterMap Token.tag? = sentence.tags :=
    yields.parted
  have length := Token.length_parted tokens
  rw [words, tags] at length
  refine ⟨yields, length.symm, words, tags, fun front tag back parts => ?_⟩
  intro inFront upToTag
  have reaches : Reaches 0 total upToTag inFront := by
    simpa only [Nat.zero_add] using yields.reaches parts
  have isLast : tag ∈ upToTag := List.mem_append_right _ List.mem_cons_self
  refine ⟨reaches.isGreatest (List.ne_nil_of_mem isLast), fun ascending => ?_⟩
  refine reaches.eq_of_forall_le isLast fun other member => ?_
  have tagsParted : sentence.tags = front.filterMap Token.tag? ++ tag :: back.filterMap Token.tag? := by
    rw [← tags, parts, List.filterMap_append]
    rfl
  rw [tagsParted, List.map_append, List.map_cons] at ascending
  rcases List.mem_append.mp member with earlier | last
  · exact (List.pairwise_append.mp ascending).2.2 _ (List.mem_map_of_mem earlier) _ List.mem_cons_self
  · exact Nat.le_of_eq (congrArg Tag.position (List.mem_singleton.mp last))

/-- Positions that go down, stay, and lie far behind the last word, and ascending ones elsewhere. -/
theorem tokens_lose_nothing_at_odd_positions
    : let word (text : String) : Word := { text := text.toList, source := text.toList }
      let tag (position : Nat) : Tag :=
        { kind := .comment, name := none, text := [], source := [], position }
      let words : List Word := [word "a", word "b", word "c"]
      let odd : Sentence := { words, tags := [tag 2, tag 0, tag (UInt64.size - 1), tag 1] }
      let ascending : Sentence := { words, tags := [tag 1, tag 1, tag 7] }
      let inOdd : List Token := [.word (word "a"), .word (word "b"), .tag (tag 2)]
      let inAscending : List Token :=
        [.word (word "a"), .tag (tag 1), .tag (tag 1), .word (word "b"), .word (word "c")]
      odd.tokens
          = inOdd ++ .tag (tag 0) :: [.word (word "c"), .tag (tag (UInt64.size - 1)), .tag (tag 1)]
      ∧ IsGreatest {words | ∃ other ∈ [tag 2, tag 0], min other.position 3 = words} 2
      ∧ ascending.tokens = inAscending ++ .tag (tag 7) :: []
      ∧ (ascending.tags.map (·.position)).Pairwise (· ≤ ·)
      ∧ (inAscending.filterMap Token.word?).length = min (tag 7).position 3 := by
  intro word tag words odd ascending inOdd inAscending
  obtain ⟨-, -, -, -, oddTags⟩ := tokens_lose_nothing odd
  obtain ⟨-, -, -, -, ascendingTags⟩ := tokens_lose_nothing ascending
  have oddTokens
      : odd.tokens
        = inOdd ++ .tag (tag 0) :: [.word (word "c"), .tag (tag (UInt64.size - 1)), .tag (tag 1)] := by
    simp [odd, inOdd, words, tag, tokens, merge]
  have ascendingTokens : ascending.tokens = inAscending ++ .tag (tag 7) :: [] := by
    simp [ascending, inAscending, words, tag, tokens, merge]
  have inOrder : (ascending.tags.map (·.position)).Pairwise (· ≤ ·) := by decide
  exact ⟨oddTokens, (oddTags inOdd (tag 0) _ oddTokens).1, ascendingTokens, inOrder,
    (ascendingTags inAscending (tag 7) [] ascendingTokens).2 inOrder⟩

end Sentence

end TaggedText
