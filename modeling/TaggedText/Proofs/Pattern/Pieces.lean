import TaggedText.Proofs.Pattern.Language
import TaggedText.Proofs.Text.Cutting

/-!
Pieces of a searched text. They join to the text, what is found is described by the pattern and
not empty, and a character that the pattern describes by itself is never skipped.
-/

namespace TaggedText

/-- The text of a piece that was found. -/
def Piece.found? : Piece → Option Text
  | skipped _ => none
  | found text => some text

namespace Pattern

/-- The texts that a search for a pattern finds, first one first. -/
def foundTexts (pattern : Pattern) (text : Text) : List Text :=
  (pattern.pieces text).filterMap Piece.found?

variable {pattern : Pattern}

theorem pieces_nil (pattern : Pattern) : pattern.pieces [] = [] := by
  rw [pieces]

/-- Where nothing matches, a character is skipped. -/
theorem pieces_of_none {c : Char} {rest : Text} (unmatched : pattern.matchStart? (c :: rest) = none)
    : pattern.pieces (c :: rest) = .skipped c :: pattern.pieces rest := by
  rw [pieces, unmatched]

/-- A match that takes something is a piece, and the search goes on behind it. -/
theorem pieces_of_some {taken rest : Text} (progress : taken ≠ [])
    (matched : pattern.matchStart? (taken ++ rest) = some rest)
    : pattern.pieces (taken ++ rest) = .found taken :: pattern.pieces rest := by
  obtain ⟨c, more, rfl⟩ := List.exists_cons_of_ne_nil progress
  rw [List.cons_append, pieces, ← List.cons_append, matched]
  have shorter : rest.length ≤ (more ++ rest).length := by simp
  have cut : (more ++ rest).length + 1 - rest.length = (c :: more).length := by
    simp only [List.length_append, List.length_cons]
    omega
  simp only [shorter, if_true, cut, List.take_left']

/-- A search takes a described text that is not empty, or skips a character. It skips only if no
described text stands there, or if the pattern describes nothing as well.
-/
theorem pieces_cases (pattern : Pattern) (c : Char) (rest : Text)
    : (pattern.pieces (c :: rest) = .skipped c :: pattern.pieces rest
        ∧ (pattern.Describes []
          ∨ ∀ taken left, c :: rest = taken ++ left → ¬ pattern.Describes taken))
      ∨ ∃ taken left,
          c :: rest = taken ++ left
          ∧ taken ≠ []
          ∧ pattern.Describes taken
          ∧ pattern.pieces (c :: rest) = .found taken :: pattern.pieces left := by
  cases matched : pattern.matchStart? (c :: rest) with
  | none =>
      refine .inl ⟨pieces_of_none matched, .inr fun taken left same described => ?_⟩
      obtain ⟨other, found⟩ := exists_matchStart? described left
      rw [← same, matched] at found
      simp at found
  | some left =>
      obtain ⟨taken, same, described⟩ := exists_of_matchStart? matched
      cases taken with
      | nil =>
          have whole : left = c :: rest := same.symm
          refine .inl ⟨?_, .inl described⟩
          rw [pieces, matched]
          simp [whole]
      | cons d more =>
          right
          rw [same] at matched ⊢
          exact ⟨d :: more, left, rfl, by simp, described, pieces_of_some (by simp) matched⟩

/-- Induction along a search. -/
theorem pieces_induction {motive : Text → Prop} (pattern : Pattern)
    (nil : motive [])
    (skipped
      : ∀ c rest,
          pattern.pieces (c :: rest) = .skipped c :: pattern.pieces rest
          → (pattern.Describes []
            ∨ ∀ taken left, c :: rest = taken ++ left → ¬ pattern.Describes taken)
          → motive rest
          → motive (c :: rest))
    (found
      : ∀ taken rest,
          taken ≠ []
          → pattern.Describes taken
          → pattern.pieces (taken ++ rest) = .found taken :: pattern.pieces rest
          → motive rest
          → motive (taken ++ rest))
    (text : Text)
    : motive text := by
  induction size : text.length using Nat.strongRecOn generalizing text with
  | ind length ih =>
      cases text with
      | nil => exact nil
      | cons c rest =>
          have shorter : rest.length < length := by simp [← size]
          rcases pieces_cases pattern c rest with
            ⟨skips, unmatched⟩ | ⟨taken, left, same, progress, described, finds⟩
          · exact skipped c rest skips unmatched (ih _ shorter rest rfl)
          · rw [same] at finds ⊢
            have positive := List.length_pos_iff.mpr progress
            have sum := congrArg List.length same
            rw [List.length_append] at sum
            exact found taken left progress described finds (ih _ (by omega) left rfl)

/-- The pieces of a text join to it. -/
theorem flatMap_pieces (pattern : Pattern) (text : Text)
    : (pattern.pieces text).flatMap Piece.text = text := by
  induction text using pieces_induction pattern with
  | nil => rw [pieces_nil]; rfl
  | skipped c rest skips _ ih => rw [skips, List.flatMap_cons, ih]; rfl
  | found taken rest _ _ finds ih => rw [finds, List.flatMap_cons, ih]; rfl

/-- As many spans are found as texts. -/
theorem isEmpty_foundSpans (position : Nat) (pieces : List Piece)
    : (foundSpans position pieces).isEmpty = (pieces.filterMap Piece.found?).isEmpty := by
  induction pieces generalizing position with
  | nil => rfl
  | cons piece rest ih =>
      cases piece with
      | skipped c => exact ih _
      | found text => rfl

theorem describes_of_mem_pieces {text taken : Text} (member : .found taken ∈ pattern.pieces text)
    : pattern.Describes taken ∧ taken ≠ [] := by
  induction text using pieces_induction pattern with
  | nil => simp [pieces_nil] at member
  | skipped c rest skips _ ih =>
      rw [skips] at member
      exact ih (by simpa using member)
  | found found rest progress described finds ih =>
      rw [finds] at member
      rcases List.mem_cons.mp member with same | member
      · exact Piece.found.inj same ▸ ⟨described, progress⟩
      · exact ih member

end Pattern

end TaggedText
