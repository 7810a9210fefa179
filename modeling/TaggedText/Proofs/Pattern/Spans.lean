import TaggedText.Proofs.Pattern.Pieces

/-!
Spans of what a search finds. They come in the order of the text and without overlap, and each of
them cuts out a text that the pattern describes.
-/

namespace TaggedText

namespace Pattern

variable {pattern : Pattern}

/-- A span is found exactly where a piece that is found stands, by induction on the pieces. -/
theorem mem_foundSpans {position : Nat} {pieces : List Piece} {span : Span}
    : span ∈ foundSpans position pieces
      ↔ ∃ front taken back,
          pieces = front ++ .found taken :: back
          ∧ span.start = position + Text.size (front.flatMap Piece.text)
          ∧ span.stop = span.start + taken.size := by
  induction pieces generalizing position with
  | nil => simp [foundSpans]
  | cons piece rest ih =>
      constructor
      · intro member
        cases piece with
        | skipped c =>
            obtain ⟨front, taken, back, rfl, start, stop⟩ := ih.mp member
            refine ⟨.skipped c :: front, taken, back, rfl, ?_, stop⟩
            rw [start, List.flatMap_cons, Text.size_append, Nat.add_assoc]
            rfl
        | found text =>
            rcases List.mem_cons.mp member with rfl | later
            · exact ⟨[], text, rest, rfl, rfl, rfl⟩
            · obtain ⟨front, taken, back, rfl, start, stop⟩ := ih.mp later
              refine ⟨.found text :: front, taken, back, rfl, ?_, stop⟩
              rw [start, List.flatMap_cons, Text.size_append, Nat.add_assoc]
              rfl
      · rintro ⟨front, taken, back, parted, start, stop⟩
        cases front with
        | nil =>
            obtain ⟨rfl, rfl⟩ := List.cons.inj parted
            obtain ⟨first, last⟩ := span
            obtain rfl : first = position := start
            obtain rfl : last = first + taken.size := stop
            exact List.mem_cons_self
        | cons other front =>
            obtain ⟨rfl, rfl⟩ := List.cons.inj parted
            rw [List.flatMap_cons, Text.size_append, ← Nat.add_assoc] at start
            have later := ih.mpr ⟨front, taken, back, rfl, start, stop⟩
            cases piece with
            | skipped c => exact later
            | found text => exact List.mem_cons_of_mem _ later

/-- What is found comes in order, and no two parts of it overlap. -/
theorem foundSpans_inOrder (position : Nat) (pieces : List Piece)
    : (foundSpans position pieces).Pairwise fun span later => span.stop ≤ later.start := by
  induction pieces generalizing position with
  | nil => exact .nil
  | cons piece rest ih =>
      cases piece with
      | skipped c => exact ih _
      | found text =>
          refine .cons (fun later member => ?_) (ih _)
          obtain ⟨front, taken, back, -, start, -⟩ := mem_foundSpans.mp member
          rw [start]
          exact Nat.le_add_right _ _

/-- What is found stands at its span. -/
theorem slice?_of_mem_spans {text : Text} {span : Span} (member : span ∈ pattern.spans text)
    : ∃ taken,
        .found taken ∈ pattern.pieces text ∧ text.slice? span.start span.stop = some taken := by
  obtain ⟨front, taken, back, parted, start, stop⟩ := mem_foundSpans.mp member
  have joined := pattern.flatMap_pieces text
  rw [parted, List.flatMap_append, List.flatMap_cons] at joined
  rw [Nat.zero_add] at start
  refine ⟨taken, by simp [parted], Text.slice?_eq_some.mpr ⟨_, _, joined.symm, start.symm, ?_⟩⟩
  rw [stop, start]

/-- Whatever is found has a span. -/
theorem exists_mem_spans {text taken : Text} (member : .found taken ∈ pattern.pieces text)
    : ∃ span ∈ pattern.spans text, text.slice? span.start span.stop = some taken := by
  obtain ⟨front, back, parted⟩ := List.append_of_mem member
  have joined := pattern.flatMap_pieces text
  rw [parted, List.flatMap_append, List.flatMap_cons] at joined
  refine ⟨⟨Text.size (front.flatMap Piece.text),
      Text.size (front.flatMap Piece.text) + taken.size⟩,
    mem_foundSpans.mpr ⟨front, taken, back, parted, (Nat.zero_add _).symm, rfl⟩,
    Text.slice?_eq_some.mpr ⟨_, _, joined.symm, rfl, rfl⟩⟩

end Pattern

end TaggedText
