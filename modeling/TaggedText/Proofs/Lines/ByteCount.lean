import TaggedText.Proofs.Lines.Modes

/-!
How many bytes are counted in reading. Every line counts one byte for its end, so the count misses one for
each carriage return in front of a line feed, and has one too many for an end that is missing.
-/

namespace TaggedText

namespace Lines

/-- How many lines have an end. -/
def countEnding (ending : LineEnd) (lines : List Line) : Nat :=
  lines.countP (·.ending = ending)

/-- The bytes of lines are those that are counted and one for each carriage return, less one for each end
that is missing, by induction on the lines.
-/
theorem sum_size_add_countEnding (lines : List Line)
    : (lines.map fun line => line.text.size + 1).sum + countEnding .returnFeed lines
      = (lines.flatMap Line.bytes).length + countEnding .missing lines := by
  induction lines with
  | nil => rfl
  | cons line more ih =>
      have here : line.text.size + 1 + (if line.ending = .returnFeed then 1 else 0)
          = line.bytes.length + (if line.ending = .missing then 1 else 0) := by
        rw [Line.bytes, List.length_append, Text.length_encode]
        cases line.ending <;> simp [LineEnd.bytes]
      simp only [countEnding, List.map_cons, List.sum_cons, List.countP_cons, decide_eq_true_eq,
        List.flatMap_cons, List.length_append] at ih ⊢
      omega

/-- Only the last line of an input can lack its end. -/
theorem Holds.countEnding_missing {bytes : Bytes} {lines : List Line} {rest : List Bytes}
    (holds : Holds bytes lines rest)
    : countEnding .missing lines ≤ 1 := by
  rcases List.eq_nil_or_concat lines with rfl | ⟨front, last, rfl⟩
  · exact Nat.zero_le 1
  have allEnded : countEnding .missing front = 0 := by
    refine List.countP_eq_zero.mpr fun line member => ?_
    have isPiece : line.bytes ∈ ((front.concat last).map Line.bytes ++ rest).dropLast := by
      rw [List.concat_eq_append, List.map_append, List.append_assoc,
        List.dropLast_append_of_ne_nil (by simp)]
      exact List.mem_append_left _ (List.mem_map_of_mem member)
    simpa using Line.ending_ne_missing (holds.cuts.ended _ isPiece)
  rw [countEnding, List.concat_eq_append, List.countP_append, ← countEnding, allEnded, Nat.zero_add]
  exact List.countP_le_length

/-- Reading counts the bytes of the lines that it gives, less one for each carriage return in front of a
line feed, and with one more if the last of these lines has no end.
-/
theorem bytesRead_by_endings (source : String) (bytes : Bytes)
    : ∃ (lines : List Line) (rest : List Bytes) (stats : ReadStats),
        Holds bytes lines rest
        ∧ (rest = [] → lines.flatMap Line.bytes = bytes)
        ∧ read source false bytes = .ok (lines.map (·.text), stats)
        ∧ stats.bytesRead + countEnding .returnFeed lines
          = (lines.flatMap Line.bytes).length + countEnding .missing lines
        ∧ countEnding .missing lines ≤ 1 := by
  obtain ⟨lines, rest, holds, areTexts, -⟩ := exists_holds bytes
  refine ⟨lines, rest, _, holds, ?_, read_eq areTexts false, sum_size_add_countEnding lines,
    holds.countEnding_missing⟩
  rintro rfl
  rw [List.flatMap_def, ← holds.cuts.joined, List.append_nil]

/-- Two carriage returns are not counted. -/
theorem bytesRead_misses_returns
    : ∃ (lines : List Text) (stats : ReadStats),
        read "memory" false (Text.encode "one\r\ntwo\r\n".toList) = .ok (lines, stats)
        ∧ stats.readError = none
        ∧ stats.bytesRead = 8
        ∧ (Text.encode "one\r\ntwo\r\n".toList).length = 10 :=
  ⟨_, _, rfl, rfl, rfl, rfl⟩

end Lines

end TaggedText
