import TaggedText.Conversion.Pass
import TaggedText.Proofs.Pattern.Pieces

/-!
What the passes look for. Markup stands between brackets, runs of blanks hold nothing but blanks,
and words hold none; whatever a search for words skips is blank.
-/

namespace TaggedText

namespace Markup

theorem exists_inside {text : Text} (described : pattern.Describes text)
    : ∃ inside : Text, text = '<' :: (inside ++ ['>']) := by
  rcases described with isComment | isTag
  · obtain ⟨start, rest, isStart, ⟨inside, stop, -, isStop, rfl⟩, rfl⟩ := isComment
    rw [Pattern.describes_literal.mp isStart, Pattern.describes_literal.mp isStop]
    exact ⟨'!' :: '-' :: '-' :: (inside ++ ['-', '-']), by simp⟩
  · obtain ⟨start, _, isStart, ⟨slash, _, -, ⟨first, _, -, ⟨name, _, -, ⟨attributes, _, -,
      ⟨last, stop, -, isStop, rfl⟩, rfl⟩, rfl⟩, rfl⟩, rfl⟩, rfl⟩ := isTag
    rw [Pattern.describes_char.mp isStart, Pattern.describes_char.mp isStop]
    exact ⟨slash ++ (first ++ (name ++ (attributes ++ last))), by simp⟩

end Markup

namespace Text

/-- The code points of blanks. -/
def blankCodes : List Nat :=
  blankRanges.flatMap fun range => (List.range (range.2 + 1 - range.1)).map (· + range.1)

/-- A code point that ranges cover is one of theirs, by induction on the ranges. -/
theorem mem_of_covers {ranges : List CodeRange} {code : Nat}
    (covered : CodeRange.covers ranges code = true)
    : code ∈ ranges.flatMap fun range => (List.range (range.2 + 1 - range.1)).map (· + range.1) := by
  induction ranges with
  | nil => simp [CodeRange.covers] at covered
  | cons range rest ih =>
      simp only [CodeRange.covers] at covered
      split at covered
      · contradiction
      · next notBelow =>
          rw [List.flatMap_cons, List.mem_append]
          simp only [Bool.or_eq_true, decide_eq_true_eq] at covered
          rcases covered with inside | later
          · left
            exact List.mem_map.mpr ⟨code - range.1, List.mem_range.mpr (by omega), by omega⟩
          · exact .inr (ih later)

/-- No blank is a word character. -/
theorem isBlank_eq_false_of_isWordChar {c : Char} (isWord : isWordChar c = true)
    : isBlank c = false := by
  have disjoint : ∀ code ∈ blankCodes, CodeRange.covers wordCharRanges code = false := by
    decide +kernel
  apply Bool.eq_false_iff.mpr
  intro isBlank
  have notWord := disjoint c.toNat (mem_of_covers isBlank)
  rw [isWordChar, notWord] at isWord
  contradiction

end Text

namespace Pass

theorem blank_of_describes {text : Text} (described : blankRun.Describes text)
    : ∀ c ∈ text, Text.isBlank c = true := by
  have within : blankRun.Within (Text.isBlank · = true) :=
    ⟨fun c isBlank => isBlank, fun c isBlank => isBlank⟩
  exact Pattern.Describes.all within described

/-- Word characters with single apostrophes between them, which is what most words are. -/
def wordRun : Pattern :=
  .seq (.plus (.one .word))
    (.star (.seq (.one (.ofList ['\'', '\u2019'])) (.plus (.one .word))))

/-- What holds of word characters and apostrophes holds of all characters of a run. -/
theorem within_wordRun {property : Char → Prop}
    (ofWord : ∀ c, Text.isWordChar c = true → property c) (straight : property '\'')
    (curly : property '\u2019')
    : wordRun.Within property := by
  have apostropheWithin : (Pattern.one (.ofList ['\'', '\u2019'])).Within property := by
    intro c isApostrophe
    have isListed := CharSet.contains_ofList.mp isApostrophe
    simp only [List.mem_cons, List.not_mem_nil, or_false] at isListed
    rcases isListed with rfl | rfl
    · exact straight
    · exact curly
  exact ⟨⟨ofWord, ofWord⟩, apostropheWithin, ofWord, ofWord⟩

theorem not_blank_of_describes {text : Text} (described : wordPattern.Describes text)
    : ∀ c ∈ text, Text.isBlank c = false := by
  have otherWithin
      : (Pattern.one (.complement (.union .word .blank))).Within (Text.isBlank · = false) := by
    intro c isOther
    simp only [CharSet.contains, Bool.not_eq_true', Bool.or_eq_false_iff] at isOther
    exact isOther.2
  have within : wordPattern.Within (Text.isBlank · = false) :=
    ⟨within_wordRun (fun _ => Text.isBlank_eq_false_of_isWordChar) rfl rfl, otherWithin⟩
  exact Pattern.Describes.all within described

/-- A word has no ampersands, unless it is a single character. -/
theorem not_mem_or_eq_of_describes {text : Text} (described : wordPattern.Describes text)
    : '&' ∉ text ∨ ∃ c, text = [c] := by
  rcases described with isRun | ⟨c, -, single⟩
  · have within : wordRun.Within (· ≠ '&') := by
      refine within_wordRun (fun c isWord same => ?_) (by decide) (by decide)
      rw [same] at isWord
      exact absurd isWord (by decide +kernel)
    exact .inl fun member => Pattern.Describes.all within isRun '&' member rfl
  · exact .inr ⟨c, single⟩

/-- Every word character makes a word, and so does every other character that is not blank. -/
theorem describes_of_not_blank {c : Char} (notBlank : Text.isBlank c = false)
    : wordPattern.Describes [c] := by
  by_cases isWord : Text.isWordChar c = true
  · exact .inl ⟨[c], [], ⟨[c], [], ⟨c, isWord, rfl⟩, .done, rfl⟩, .done, rfl⟩
  · refine .inr ⟨c, ?_, rfl⟩
    simp only [CharSet.contains, isWord, notBlank, Bool.or_false, Bool.not_false]

theorem not_describes_nil : ¬ wordPattern.Describes [] := by
  rintro (⟨left, right, ⟨first, more, ⟨c, -, rfl⟩, -, rfl⟩, -, same⟩ | ⟨c, -, same⟩)
  · simp at same
  · simp at same

/-- What a search for words skips is blank. -/
theorem isBlank_of_skipped {c : Char} {rest : Text}
    (nothing
      : wordPattern.Describes []
        ∨ ∀ taken left, c :: rest = taken ++ left → ¬ wordPattern.Describes taken)
    : Text.isBlank c = true := by
  apply Decidable.byContradiction
  intro notBlank
  have isWord := describes_of_not_blank (Bool.eq_false_iff.mpr notBlank)
  exact nothing.resolve_left not_describes_nil [c] rest rfl isWord

end Pass

end TaggedText
