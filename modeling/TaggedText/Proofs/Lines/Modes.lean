import TaggedText.Proofs.Lines.Endings

/-!
The two modes of reading. Both give the lines of an input that is all text. Behind the lines in front of
the first piece that is no text, one mode ends with a message that names this piece, and the other fails
with the same message. How many bytes are counted depends on the lines alone.
-/

namespace TaggedText

namespace Lines

/-- What is read of an input: the texts of its lines, and a message in place of all else. -/
theorem read_eq {source : String} {bytes : Bytes} {lines : List Line}
    (areTexts : (decodeAll (pieces bytes)).1 = lines.map (·.text)) (failFast : Bool)
    : read source failFast bytes
      = match failFast, (decodeAll (pieces bytes)).2 with
        | true, some fault => .error (errorMessage source lines.length (.encoding fault))
        | _, fault? =>
            .ok (lines.map (·.text), {
              source
              linesRead := lines.length
              bytesRead := (lines.map fun line => line.text.size + 1).sum
              readError :=
                fault?.map fun fault => errorMessage source lines.length (.encoding fault)
            }) := by
  simp only [read_eq_decodeAll, areTexts, List.length_map, List.map_map, Function.comp_def]
  cases failFast <;> cases (decodeAll (pieces bytes)).2 <;> rfl

/-- Reading gives the texts of the lines in front of the first piece that is no text, and says in which
line the reading stopped if there is such a piece. Reading that has to fail fast gives the same if there is
none, and fails with what the other says about it if there is one.
-/
theorem read_in_both_modes (source : String) (bytes : Bytes)
    : ∃ (lines : List Line) (rest : List Bytes) (readError : Option String),
        Holds bytes lines rest
        ∧ (readError = none ↔ rest = [])
        ∧ (∀ message ∈ readError, ∃ fault : Text.EncodingFault,
            message = s!"Read error in {source} at line {lines.length + 1}: {fault.message}")
        ∧ read source false bytes
          = .ok (lines.map (·.text), {
              source
              linesRead := lines.length
              bytesRead := (lines.map fun line => line.text.size + 1).sum
              readError
            })
        ∧ read source true bytes
          = match readError with
            | none => read source false bytes
            | some message => .error message := by
  obtain ⟨lines, rest, holds, areTexts, isWhole⟩ := exists_holds bytes
  refine ⟨lines, rest, (decodeAll (pieces bytes)).2.map fun fault =>
    errorMessage source lines.length (.encoding fault), holds, ?_, ?_, ?_, ?_⟩
  · rw [Option.map_eq_none_iff, isWhole]
  · intro message isMessage
    obtain ⟨fault, -, rfl⟩ := Option.map_eq_some_iff.mp isMessage
    exact ⟨fault, rfl⟩
  · exact read_eq areTexts false
  · rw [read_eq areTexts true, read_eq areTexts false]
    cases (decodeAll (pieces bytes)).2 <;> rfl

end Lines

end TaggedText
