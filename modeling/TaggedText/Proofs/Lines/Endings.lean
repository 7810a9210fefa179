import TaggedText.Proofs.CommandLine.Reading
import TaggedText.Proofs.Text.Cutting

/-!
Lines with what ends them. Taking the end off a piece of bytes neither makes a text of it nor spoils one,
so the pieces of an input are lines with their ends, up to the first piece that is no text.
-/

namespace TaggedText

namespace Text

/-- A sequence that ends with a byte below 128 is this byte alone. -/
theorem Sequence.exists_last {code : Nat} {bytes : Bytes} (isSequence : Sequence code bytes)
    : ∃ front last, bytes = front ++ [last] ∧ (last.toNat < 128 → front = [] ∧ last.toNat = code) := by
  cases isSequence with
  | one => exact ⟨[], _, rfl, fun _ => ⟨rfl, rfl⟩⟩
  | @two first second _ isSecond =>
      rw [isSecond_iff] at isSecond
      exact ⟨[first], second, rfl, by omega⟩
  | @three first second third _ _ isThird =>
      rw [isContinuation_iff] at isThird
      exact ⟨[first, second], third, rfl, by omega⟩
  | @four first second third fourth _ _ _ isFourth =>
      rw [isContinuation_iff] at isFourth
      exact ⟨[first, second, third], fourth, rfl, by omega⟩

/-- A byte below 128 at the end of a text is its last character. -/
theorem exists_of_encode_eq_concat {text : Text} {front : Bytes} {last : UInt8}
    (small : last.toNat < 128) (same : encode text = front ++ [last])
    : ∃ before, text = before ++ [Char.ofNat last.toNat] ∧ encode before = front := by
  rcases List.eq_nil_or_concat text with rfl | ⟨before, c, rfl⟩
  · simp [encode] at same
  · obtain ⟨inFront, other, isBytes, isAlone⟩ := (sequence_of_char c).exists_last
    have parts : encode before ++ inFront ++ [other] = front ++ [last] := by
      rw [← same, List.concat_eq_append, encode_append, List.append_assoc, ← isBytes]
      simp [encode]
    obtain ⟨isFront, isLast⟩ := List.append_inj' parts rfl
    obtain rfl : other = last := by simpa using isLast
    obtain ⟨rfl, isCode⟩ := isAlone small
    rw [List.append_nil] at isFront
    exact ⟨before, by rw [isCode, Char.ofNat_toNat, List.concat_eq_append], isFront⟩

end Text

namespace Lines

/-- What ends a line: a line feed, a carriage return with one, or nothing but the end of the input. -/
inductive LineEnd where
  | feed
  | returnFeed
  | missing
deriving DecidableEq

/-- The bytes of an end. -/
def LineEnd.bytes : LineEnd → Bytes
  | feed => [lineFeed]
  | returnFeed => [carriageReturn] ++ [lineFeed]
  | missing => []

/-- A line with what ends it. Its text holds no line feed, and a carriage return in front of a line feed
is part of the end.
-/
structure Line where
  text : Text
  ending : LineEnd
  noFeed : '\n' ∉ text
  noReturn : ending = .feed → text.getLast? ≠ some '\r'

/-- The bytes of a line, its end included. -/
def Line.bytes (line : Line) : Bytes :=
  Text.encode line.text ++ line.ending.bytes

/-- A line without an end does not end with a line feed. -/
theorem Line.ending_ne_missing {line : Line} (isEnded : line.bytes.getLast? = some lineFeed)
    : line.ending ≠ .missing := by
  intro isMissing
  obtain ⟨front, isBytes⟩ := List.getLast?_eq_some_iff.mp isEnded
  rw [Line.bytes, isMissing, LineEnd.bytes, List.append_nil] at isBytes
  obtain ⟨before, isText, -⟩ := Text.exists_of_encode_eq_concat (by decide) isBytes
  exact line.noFeed (isText ▸ List.mem_append_right before (List.mem_singleton.mpr rfl))

/-- The lines that bytes hold with their ends, and the pieces from the first on that is no text. -/
structure Holds (bytes : Bytes) (lines : List Line) (rest : List Bytes) : Prop where
  cuts : Cuts bytes (lines.map Line.bytes ++ rest)
  stops : ∀ piece ∈ rest.head?, ∀ text, Text.encode text ≠ piece

-----------------------------------------------------------------------------------------
-- Ends of pieces
-----------------------------------------------------------------------------------------

/-- What is taken off a piece is its end. -/
theorem exists_ending (piece : Bytes)
    : ∃ ending : LineEnd,
        piece = stripEnd piece ++ ending.bytes
        ∧ (ending = .feed → (stripEnd piece).getLast? ≠ some carriageReturn)
        ∧ (ending = .missing → piece.getLast? ≠ some lineFeed) := by
  by_cases isEnded : piece.getLast? = some lineFeed
  · obtain ⟨line, rfl⟩ := List.getLast?_eq_some_iff.mp isEnded
    by_cases isReturned : line.getLast? = some carriageReturn
    · obtain ⟨shorter, rfl⟩ := List.getLast?_eq_some_iff.mp isReturned
      exact ⟨.returnFeed, by simp [stripEnd, LineEnd.bytes], by simp, by simp⟩
    · exact ⟨.feed, by simp [stripEnd, isReturned, LineEnd.bytes], by simp [stripEnd, isReturned],
        by simp⟩
  · exact ⟨.missing, by simp [stripEnd, isEnded, LineEnd.bytes], by simp, fun _ => isEnded⟩

/-- Nothing is left of a line feed that ends a piece. -/
theorem not_mem_stripEnd {piece : Bytes} (atEnd : lineFeed ∉ piece.dropLast)
    : lineFeed ∉ stripEnd piece := by
  obtain ⟨ending, isPiece, -, notEnded⟩ := exists_ending piece
  intro member
  have isMember : lineFeed ∈ piece := isPiece ▸ List.mem_append_left _ member
  obtain rfl | ⟨front, last, rfl⟩ := List.eq_nil_or_concat piece
  · simp at isMember
  rw [List.concat_eq_append] at *
  rw [List.dropLast_concat] at atEnd
  cases ending with
  | feed =>
      obtain ⟨isFront, -⟩ := List.append_inj' isPiece rfl
      exact atEnd (isFront ▸ member)
  | returnFeed =>
      rw [LineEnd.bytes, ← List.append_assoc] at isPiece
      obtain ⟨isFront, -⟩ := List.append_inj' isPiece rfl
      exact atEnd (isFront ▸ List.mem_append_left _ member)
  | missing =>
      obtain rfl : lineFeed = last := by simpa [atEnd] using isMember
      exact notEnded rfl List.getLast?_concat

/-- A piece is a line with its end if it is a text without its end. -/
theorem exists_line {piece : Bytes} {text : Text} (atEnd : lineFeed ∉ piece.dropLast)
    (isText : Text.encode text = stripEnd piece)
    : ∃ line : Line, line.text = text ∧ line.bytes = piece := by
  obtain ⟨ending, isPiece, noReturn, -⟩ := exists_ending piece
  have noFeed : '\n' ∉ text := fun member =>
    not_mem_stripEnd atEnd (isText ▸ List.mem_flatMap.mpr ⟨'\n', member, List.mem_singleton.mpr rfl⟩)
  have noReturnInText : ending = .feed → text.getLast? ≠ some '\r' := by
    intro isFeed isReturn
    obtain ⟨front, rfl⟩ := List.getLast?_eq_some_iff.mp isReturn
    apply noReturn isFeed
    rw [← isText, Text.encode_append]
    exact List.getLast?_concat
  exact ⟨⟨text, ending, noFeed, noReturnInText⟩, rfl, by rw [Line.bytes, isText, ← isPiece]⟩

/-- A piece is no text if it is none without its end. -/
theorem encode_ne_of_stripEnd {piece : Bytes} (noText : ∀ text, Text.encode text ≠ stripEnd piece)
    (text : Text)
    : Text.encode text ≠ piece := by
  obtain ⟨ending, isPiece, -, -⟩ := exists_ending piece
  intro same
  rw [isPiece] at same
  cases ending with
  | feed =>
      obtain ⟨before, -, isText⟩ := Text.exists_of_encode_eq_concat (by decide) same
      exact noText before isText
  | returnFeed =>
      rw [LineEnd.bytes, ← List.append_assoc] at same
      obtain ⟨longer, -, isLonger⟩ := Text.exists_of_encode_eq_concat (by decide) same
      obtain ⟨before, -, isText⟩ := Text.exists_of_encode_eq_concat (by decide) isLonger
      exact noText before isText
  | missing => exact noText text (by simpa [LineEnd.bytes] using same)

-----------------------------------------------------------------------------------------
-- Lines of pieces
-----------------------------------------------------------------------------------------

/-- What is decoded of pieces are the texts of their lines, and there is a fault if there are other
pieces behind these, by induction on the pieces.
-/
theorem exists_lines {pieces : List Bytes} (atEnd : ∀ piece ∈ pieces, lineFeed ∉ piece.dropLast)
    : ∃ (lines : List Line) (rest : List Bytes),
        pieces = lines.map Line.bytes ++ rest
        ∧ (∀ piece ∈ rest.head?, ∀ text, Text.encode text ≠ piece)
        ∧ (decodeAll pieces).1 = lines.map (·.text)
        ∧ ((decodeAll pieces).2 = none ↔ rest = []) := by
  induction pieces with
  | nil => exact ⟨[], [], rfl, by simp, rfl, by simp [decodeAll]⟩
  | cons piece more ih =>
      obtain ⟨atEndHere, atEndLater⟩ := List.forall_mem_cons.mp atEnd
      simp only [decodeAll]
      cases decoded : Text.decode (stripEnd piece) with
      | error fault =>
          have noText (text : Text) : Text.encode text ≠ stripEnd piece := by
            rw [ne_eq, ← Text.decode_eq_ok, decoded]
            simp
          refine ⟨[], piece :: more, rfl, fun first isFirst => ?_, rfl, by simp⟩
          obtain rfl : piece = first := by simpa using isFirst
          exact encode_ne_of_stripEnd noText
      | ok text =>
          obtain ⟨lines, rest, split, stops, areTexts, isWhole⟩ := ih atEndLater
          obtain ⟨line, isText, isPiece⟩ := exists_line atEndHere (Text.decode_eq_ok.mp decoded)
          refine ⟨line :: lines, rest, ?_, stops, ?_, isWhole⟩
          · rw [List.map_cons, isPiece, List.cons_append, ← split]
          · simp only [List.map_cons, isText, areTexts]

/-- Bytes hold the lines whose texts are decoded of them. -/
theorem exists_holds (bytes : Bytes)
    : ∃ (lines : List Line) (rest : List Bytes),
        Holds bytes lines rest
        ∧ (decodeAll (pieces bytes)).1 = lines.map (·.text)
        ∧ ((decodeAll (pieces bytes)).2 = none ↔ rest = []) := by
  have cuts := cuts_pieces bytes
  obtain ⟨lines, rest, split, stops, areTexts, isWhole⟩ :=
    exists_lines fun piece member => (cuts.first piece member).2
  exact ⟨lines, rest, ⟨split ▸ cuts, stops⟩, areTexts, isWhole⟩

end Lines

end TaggedText
