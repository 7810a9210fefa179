import TaggedText.Entity
import TaggedText.Proofs.Pattern.Pieces

/-!
The shape of entities in a text. An entity begins with an ampersand and ends with the first
semicolon behind it, so that no two of them overlap, and a search finds the same ones whatever it
has passed before. Neither brackets nor blanks stand in an entity, which keeps it apart from tags.
-/

namespace TaggedText

namespace Entity

/-- Characters that never stand between the ampersand and the semicolon of an entity. -/
def delimiters : List Char :=
  [';', '&', ' ', '<', '>']

/-- A set without delimiters. -/
def IsPlain (set : CharSet) : Prop :=
  delimiters.all (!set.contains ·) = true

instance (set : CharSet) : Decidable (IsPlain set) :=
  inferInstanceAs (Decidable (_ = true))

theorem within_of_isPlain {set : CharSet} (isPlain : IsPlain set)
    : (Pattern.one set).Within (· ∉ delimiters) := by
  intro c contained member
  have apart := List.all_eq_true.mp isPlain c member
  rw [contained] at apart
  contradiction

theorem within_upToMany {set : CharSet} (isPlain : IsPlain set) (most : Nat)
    : (upToMany set most).Within (· ∉ delimiters) :=
  ⟨within_of_isPlain isPlain, Pattern.within_upTo (within_of_isPlain isPlain) false (most - 1)⟩

/-- An entity has an ampersand in front, a semicolon behind, and no delimiter between them. -/
theorem exists_inside {text : Text} (described : pattern.Describes text)
    : ∃ inside : Text, text = '&' :: (inside ++ [';']) ∧ ∀ c ∈ inside, c ∉ delimiters := by
  obtain ⟨first, rest, isFirst, ⟨inside, last, isInside, isLast, rfl⟩, rfl⟩ := described
  have within
      : (Pattern.altAll [
          .seq (.char '#') (upToMany decimal 7),
          .seqAll [.char '#', .one (.ofList ['x', 'X']), upToMany hexadecimal 6],
          .seq (.one letter) (upToMany letterOrDigit 31)
        ]).Within (· ∉ delimiters) := by
    have hash : (Pattern.char '#').Within (· ∉ delimiters) := within_of_isPlain (by decide)
    have cross : (Pattern.one (.ofList ['x', 'X'])).Within (· ∉ delimiters) :=
      within_of_isPlain (by decide)
    have first : (Pattern.one letter).Within (· ∉ delimiters) := within_of_isPlain (by decide)
    refine ⟨⟨hash, within_upToMany ?_ 7⟩, ⟨hash, cross, within_upToMany ?_ 6⟩,
      first, within_upToMany ?_ 31⟩
    · decide
    · decide
    · decide
  refine ⟨inside, ?_, Pattern.Describes.all within isInside⟩
  rw [Pattern.describes_char.mp isFirst, Pattern.describes_char.mp isLast]
  rfl

/-- Neither brackets nor spaces stand in an entity. -/
theorem not_mem_of_describes {text : Text} (described : pattern.Describes text)
    : '<' ∉ text ∧ '>' ∉ text ∧ ' ' ∉ text := by
  obtain ⟨inside, rfl, plain⟩ := exists_inside described
  have apart {c : Char} (isDelimiter : c ∈ delimiters) (isOther : c ≠ '&' ∧ c ≠ ';')
      : c ∉ '&' :: (inside ++ [';']) := by
    intro member
    rcases List.mem_cons.mp member with first | later
    · exact isOther.1 first
    · rcases List.mem_append.mp later with inner | last
      · exact plain c inner isDelimiter
      · exact isOther.2 (List.mem_singleton.mp last)
  exact ⟨apart (by decide) (by decide), apart (by decide) (by decide),
    apart (by decide) (by decide)⟩

theorem not_describes_nil : ¬ pattern.Describes [] := by
  intro described
  obtain ⟨inside, same, -⟩ := exists_inside described
  simp at same

/-- No text begins with two different entities. -/
theorem eq_of_describes {text other rest left : Text} (described : pattern.Describes text)
    (alsoDescribed : pattern.Describes other) (same : text ++ rest = other ++ left)
    : text = other ∧ rest = left := by
  obtain ⟨inside, rfl, plain⟩ := exists_inside described
  obtain ⟨others, rfl, alsoPlain⟩ := exists_inside alsoDescribed
  simp only [List.cons_append, List.append_assoc, List.cons.injEq, true_and, List.nil_append]
    at same
  have notInside : ';' ∉ inside := fun member => plain ';' member (by decide)
  have notInOthers : ';' ∉ others := fun member => alsoPlain ';' member (by decide)
  obtain ⟨rfl, rfl⟩ := Text.eq_of_append_cons_eq notInside notInOthers same
  exact ⟨rfl, rfl⟩

-----------------------------------------------------------------------------------------
-- Searching
-----------------------------------------------------------------------------------------

/-- A search finds every entity that it comes to. -/
theorem pieces_of_describes {text : Text} (described : pattern.Describes text) (rest : Text)
    : pattern.pieces (text ++ rest) = .found text :: pattern.pieces rest := by
  obtain ⟨c, more, rfl⟩ :=
    List.exists_cons_of_ne_nil fun isEmpty => not_describes_nil (isEmpty ▸ described)
  rcases Pattern.pieces_cases pattern c (more ++ rest) with
    ⟨-, nothing⟩ | ⟨taken, left, same, -, alsoDescribed, found⟩
  · exact absurd described (nothing.resolve_left not_describes_nil (c :: more) rest rfl)
  · obtain ⟨rfl, rfl⟩ := eq_of_describes described alsoDescribed same
    exact found

/-- A search skips a character where no entity is. -/
theorem pieces_of_not_describes {c : Char} {rest : Text}
    (nothing : ∀ taken left, c :: rest = taken ++ left → ¬ pattern.Describes taken)
    : pattern.pieces (c :: rest) = .skipped c :: pattern.pieces rest := by
  rcases Pattern.pieces_cases pattern c rest with ⟨skips, -⟩ | ⟨taken, left, same, -, described, -⟩
  · exact skips
  · exact absurd described (nothing taken left same)

/-- Entities only begin at ampersands. -/
theorem pieces_cons_of_ne {c : Char} (notAmpersand : c ≠ '&') (rest : Text)
    : pattern.pieces (c :: rest) = .skipped c :: pattern.pieces rest := by
  apply pieces_of_not_describes
  intro taken left same described
  obtain ⟨inside, rfl, -⟩ := exists_inside described
  simp only [List.cons_append, List.cons.injEq] at same
  exact notAmpersand same.1

-----------------------------------------------------------------------------------------
-- Unescaping
-----------------------------------------------------------------------------------------

@[simp] theorem unescape_nil : unescape [] = [] := by
  rw [unescape, Pattern.pieces_nil]
  rfl

theorem unescape_cons_of_ne {c : Char} (notAmpersand : c ≠ '&') (rest : Text)
    : unescape (c :: rest) = c :: unescape rest := by
  rw [unescape, pieces_cons_of_ne notAmpersand rest, List.flatMap_cons]
  rfl

/-- A single character is no entity. -/
theorem unescape_singleton (c : Char) : unescape [c] = [c] := by
  have nothing : ∀ taken left, [c] = taken ++ left → ¬ pattern.Describes taken := by
    intro taken left same described
    obtain ⟨inside, rfl, -⟩ := exists_inside described
    simp at same
  rw [unescape, pieces_of_not_describes nothing, Pattern.pieces_nil]
  rfl

theorem unescape_of_resolves {text : Text} {c : Char} (described : pattern.Describes text)
    (resolves : resolve? text = some c) (rest : Text)
    : unescape (text ++ rest) = c :: unescape rest := by
  rw [unescape, pieces_of_describes described rest, List.flatMap_cons]
  simp only [replacement?, resolves]
  rfl

end Entity

end TaggedText
