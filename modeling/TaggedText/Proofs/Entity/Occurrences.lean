import TaggedText.Proofs.Entity.Grammar
import TaggedText.Proofs.Pattern.Spans

/-!
Occurrences of entities. A search from left to right finds every entity that a text holds: none
hides another, since an ampersand stands only at the start of an entity and a semicolon only at its
end. So what a search finds does not depend on where it began.
-/

namespace TaggedText

namespace Entity

/-- What ends inside an entity and what begins there share no ampersand. -/
theorem eq_nil_of_describes_append {left right : Text}
    (described : pattern.Describes (left ++ '&' :: right))
    : left = [] := by
  obtain ⟨inside, same, plain⟩ := exists_inside described
  cases left with
  | nil => rfl
  | cons c more =>
      have notInside : '&' ∉ inside ++ [';'] := by
        intro member
        rcases List.mem_append.mp member with inner | last
        · exact plain '&' inner (by decide)
        · exact absurd last (by decide)
      rw [List.cons_append] at same
      exact absurd ((List.cons.inj same).2 ▸ by simp) notInside

/-- A search comes to every entity of a text, by induction along the search. A match cannot begin in
front of the entity and end behind its start, since it would hold its ampersand.
-/
theorem exists_pieces_of_describes {entity : Text} (described : pattern.Describes entity)
    (left right : Text)
    : ∃ front,
        pattern.pieces (left ++ (entity ++ right)) = front ++ .found entity :: pattern.pieces right
        ∧ front.flatMap Piece.text = left := by
  obtain ⟨inside, isEntity, -⟩ := exists_inside described
  generalize whole : left ++ (entity ++ right) = text
  induction text using Pattern.pieces_induction pattern generalizing left with
  | nil => simp [isEntity] at whole
  | skipped c rest skips nothing ih =>
      cases left with
      | nil =>
          exact absurd described (nothing.resolve_left not_describes_nil entity right whole.symm)
      | cons d left =>
          obtain ⟨rfl, isRest⟩ := List.cons.inj whole
          obtain ⟨front, parted, joined⟩ := ih left isRest
          refine ⟨.skipped d :: front, by rw [skips, parted, List.cons_append], ?_⟩
          rw [List.flatMap_cons, joined]
          rfl
  | found taken rest _ alsoDescribed finds ih =>
      have later {more : Text} (isRest : more ++ (entity ++ right) = rest)
          : ∃ front,
              pattern.pieces (taken ++ rest) = front ++ .found entity :: pattern.pieces right
              ∧ front.flatMap Piece.text = taken ++ more := by
        obtain ⟨front, parted, joined⟩ := ih more isRest
        refine ⟨.found taken :: front, by rw [finds, parted, List.cons_append], ?_⟩
        rw [List.flatMap_cons, joined]
        rfl
      rcases List.append_eq_append_iff.mp whole with ⟨more, rfl, isRest⟩ | ⟨more, rfl, isRest⟩
      · cases more with
        | nil => simpa using @later [] isRest
        | cons c more =>
            rw [isEntity] at isRest
            obtain rfl : '&' = c := (List.cons.inj isRest).1
            obtain rfl : left = [] := eq_nil_of_describes_append alsoDescribed
            obtain ⟨rfl, rfl⟩ := eq_of_describes described alsoDescribed whole
            exact ⟨[], finds, rfl⟩
      · exact later isRest.symm

/-- The spans that a search finds are those of all entities of the text. -/
theorem mem_occurrences {text : Text} {span : Span}
    : span ∈ occurrences text
      ↔ ∃ entity, text.slice? span.start span.stop = some entity ∧ IsEntity entity := by
  constructor
  · intro member
    obtain ⟨entity, isFound, sliced⟩ := Pattern.slice?_of_mem_spans member
    have described := (Pattern.describes_of_mem_pieces isFound).1
    exact ⟨entity, sliced, describes_iff_isEntity.mp described⟩
  · rintro ⟨entity, sliced, isEntity⟩
    obtain ⟨left, right, rfl, start, stop⟩ := Text.slice?_eq_some.mp sliced
    obtain ⟨front, parted, joined⟩ :=
      exists_pieces_of_describes (describes_iff_isEntity.mpr isEntity) left right
    refine Pattern.mem_foundSpans.mpr ⟨front, entity, _, parted, ?_, ?_⟩
    · rw [joined, Nat.zero_add, start]
    · rw [← start, stop]

end Entity

end TaggedText
