import Mathlib.Algebra.GroupWithZero.Nat
import TaggedText.Lines
import TaggedText.Proofs.Text.Decoding

/-!
What is read of bytes. They are cut behind every line feed, nothing of them gets lost, and the lines are
the texts of the pieces up to the first one that is no text.
-/

namespace TaggedText

namespace Lines

/-- Pieces of bytes, each of which ends with the first line feed in it, or with the bytes if it holds
none.
-/
structure Cuts (bytes : Bytes) (pieces : List Bytes) : Prop where
  joined : pieces.flatten = bytes
  ended : ∀ piece ∈ pieces.dropLast, piece.getLast? = some lineFeed
  first : ∀ piece ∈ pieces, piece ≠ [] ∧ lineFeed ∉ piece.dropLast

/-- A line feed in front of bytes is a piece by itself. -/
theorem Cuts.cons_lineFeed {bytes : Bytes} {pieces : List Bytes} (cuts : Cuts bytes pieces)
    : Cuts (lineFeed :: bytes) ([lineFeed] :: pieces) where
  joined := by rw [List.flatten_cons, cuts.joined, List.singleton_append]
  ended piece member := by
    cases pieces with
    | nil => simp at member
    | cons next more =>
        rw [List.dropLast_cons_cons] at member
        rcases List.mem_cons.mp member with rfl | later
        · rfl
        · exact cuts.ended piece later
  first := List.forall_mem_cons.mpr ⟨⟨by simp, by simp⟩, cuts.first⟩

/-- Another byte in front of bytes belongs to the first piece. -/
theorem Cuts.cons {byte : UInt8} (notFeed : byte ≠ lineFeed) {bytes piece : Bytes}
    {more : List Bytes} (cuts : Cuts bytes (piece :: more))
    : Cuts (byte :: bytes) ((byte :: piece) :: more) := by
  obtain ⟨joined, ended, first⟩ := cuts
  obtain ⟨⟨notEmpty, noFeed⟩, later⟩ := List.forall_mem_cons.mp first
  refine ⟨by rw [← joined]; rfl, ?_, List.forall_mem_cons.mpr ⟨⟨by simp, ?_⟩, later⟩⟩
  · cases more with
    | nil => simp
    | cons next others =>
        rw [List.dropLast_cons_cons, List.forall_mem_cons] at ended ⊢
        rw [List.getLast?_cons_of_ne_nil notEmpty]
        exact ended
  · rw [List.dropLast_cons_of_ne_nil notEmpty, List.mem_cons, not_or]
    exact ⟨notFeed.symm, noFeed⟩

/-- Bytes are cut behind every line feed, by induction on them. -/
theorem cuts_pieces (bytes : Bytes) : Cuts bytes (pieces bytes) := by
  induction bytes with
  | nil => exact ⟨rfl, by simp [pieces], by simp [pieces]⟩
  | cons byte rest ih =>
      simp only [pieces]
      split
      · next isFeed => exact isFeed ▸ ih.cons_lineFeed
      · next notFeed =>
          cases others : pieces rest with
          | nil =>
              obtain rfl : rest = [] := by rw [← ih.joined, others, List.flatten_nil]
              exact ⟨rfl, by simp, by simp⟩
          | cons piece more => exact (others ▸ ih).cons notFeed

/-- The texts of pieces up to the first that is no text, and the fault of that one. -/
def decodeAll : List Bytes → List Text × Option Text.EncodingFault
  | [] => ([], none)
  | piece :: rest =>
      match Text.decode (stripEnd piece) with
      | .error fault => ([], some fault)
      | .ok line =>
          let (lines, fault) := decodeAll rest
          (line :: lines, fault)

/-- Reading on gives the texts of the pieces up to the first that is no text. Its counters go on by the
number of these texts and by their bytes, with one more for each, by induction on the pieces.
-/
theorem readOn_eq (failFast : Bool) (stats : ReadStats) (pieces : List Bytes)
    : readOn failFast stats pieces
      = let (lines, fault) := decodeAll pieces
        let stats := {
          stats with
          linesRead := stats.linesRead + lines.length
          bytesRead := stats.bytesRead + (lines.map fun line => line.size + 1).sum
        }
        match fault with
        | none => .ok (lines, stats)
        | some fault => (stop failFast stats (.encoding fault)).map (lines, ·) := by
  induction pieces generalizing stats with
  | nil => rfl
  | cons piece more ih =>
      simp only [readOn, decodeAll]
      cases Text.decode (stripEnd piece) with
      | error fault => rfl
      | ok line =>
          simp only [ih, ReadStats.addLine, List.length_cons, List.map_cons, List.sum_cons,
            Nat.add_assoc, Nat.add_comm 1]
          cases (decodeAll more).2 with
          | none => rfl
          | some fault =>
              simp only [stop]
              cases failFast <;> rfl

/-- The counters are the number of the lines and the bytes of these, with one more for each. -/
theorem read_eq_decodeAll (source : String) (failFast : Bool) (bytes : Bytes)
    : read source failFast bytes
      = let (lines, fault) := decodeAll (pieces bytes)
        match failFast, fault.map fun fault =>
          errorMessage source lines.length (.encoding fault) with
        | true, some message => .error message
        | _, readError =>
            .ok (lines, {
              source
              linesRead := lines.length
              bytesRead := (lines.map fun line => line.size + 1).sum
              readError
            }) := by
  simp only [read, readOn_eq, Nat.zero_add]
  cases (decodeAll (pieces bytes)).2 with
  | none => cases failFast <;> rfl
  | some fault => cases failFast <;> rfl

/-- The lines are the texts of the pieces in front of the first that is no text, and there is a fault
if there is such a piece, by induction on the pieces.
-/
theorem exists_rest (pieces : List Bytes)
    : ∃ rest,
        pieces.map stripEnd = (decodeAll pieces).1.map Text.encode ++ rest
        ∧ (∀ line ∈ rest.head?, ∀ text, Text.encode text ≠ line)
        ∧ ((decodeAll pieces).2 = none ↔ rest = []) := by
  induction pieces with
  | nil => exact ⟨[], rfl, by simp, by simp [decodeAll]⟩
  | cons piece more ih =>
      simp only [decodeAll]
      cases decoded : Text.decode (stripEnd piece) with
      | error fault =>
          refine ⟨(piece :: more).map stripEnd, rfl, fun line isFirst text same => ?_, by simp⟩
          obtain rfl : stripEnd piece = line := by simpa using isFirst
          rw [Text.decode_eq_ok.mpr same] at decoded
          contradiction
      | ok line =>
          obtain ⟨rest, split, fails, whole⟩ := ih
          refine ⟨rest, ?_, fails, whole⟩
          rw [List.map_cons, split, ← Text.decode_eq_ok.mp decoded]
          rfl

/-- No other texts can be in front of the first piece that is no text, by induction on the pieces. -/
theorem decodeAll_of_split {pieces : List Bytes} {lines : List Text} {rest : List Bytes}
    (split : pieces.map stripEnd = lines.map Text.encode ++ rest)
    (stops : ∀ line ∈ rest.head?, ∀ text, Text.encode text ≠ line)
    : (decodeAll pieces).1 = lines := by
  induction pieces generalizing lines with
  | nil => exact (List.map_eq_nil_iff.mp (List.append_eq_nil_iff.mp split.symm).1).symm
  | cons piece more ih =>
      simp only [decodeAll]
      cases lines with
      | nil =>
          simp only [List.map_nil, List.nil_append] at split
          subst split
          have noText := stops _ rfl
          cases decoded : Text.decode (stripEnd piece) with
          | error fault => rfl
          | ok line => exact absurd (Text.decode_eq_ok.mp decoded) (noText line)
      | cons line others =>
          simp only [List.map_cons, List.cons_append, List.cons.injEq] at split
          rw [Text.decode_eq_ok.mpr split.1.symm]
          exact congrArg (line :: ·) (ih split.2)

/-- Lines that are the texts of the first lines of some bytes. The rest of the lines is empty, or it
begins with one that is no text.
-/
structure Reads (bytes : Bytes) (lines : List Text) (rest : List Bytes) : Prop where
  cuts : Cuts bytes (pieces bytes)
  split : (pieces bytes).map stripEnd = lines.map Text.encode ++ rest
  stops : ∀ line ∈ rest.head?, ∀ text, Text.encode text ≠ line

theorem exists_reads (bytes : Bytes)
    : ∃ rest,
        Reads bytes (decodeAll (pieces bytes)).1 rest
        ∧ ((decodeAll (pieces bytes)).2 = none ↔ rest = []) := by
  obtain ⟨rest, split, stops, isWhole⟩ := exists_rest (pieces bytes)
  exact ⟨rest, ⟨cuts_pieces bytes, split, stops⟩, isWhole⟩

theorem Reads.decodeAll {bytes : Bytes} {lines : List Text} {rest : List Bytes}
    (reads : Reads bytes lines rest)
    : (Lines.decodeAll (pieces bytes)).1 = lines :=
  decodeAll_of_split reads.split reads.stops

end Lines

end TaggedText
