import Mathlib.Data.Fintype.Card
import Mathlib.Tactic.Choose
import TaggedText.Proofs.Pattern.Language
import TaggedText.Proofs.Text.Cutting
import TaggedText.Spacing.Annotator

/-!
Whether the scan of a line comes to its end. Patterns that enclose a word in separators take two bytes
at least, and the scan goes on from the second separator, so that less of the line is left after every
hit. A scan that comes to the end makes no two of its calls at the same byte, so one that has made
more calls than the line has bytes goes on for ever, as one can whose rule has a bracket too many.
-/

namespace TaggedText

theorem Layout.utf8Size_separator : (' ' : Char).utf8Size = 1 :=
  rfl

namespace Scanner

/-- Whether each pattern of a scanner encloses a word in separators. -/
def IsEnclosed (scanner : Scanner) : Prop :=
  ∀ rule ∈ scanner, ∃ word, rule.1 = enclosed word

theorem isEnclosed_ruleSet (set : RuleSet) : IsEnclosed set.scanner := by
  intro rule member
  simp only [RuleSet.scanner, List.mem_cons, List.not_mem_nil, or_false] at member
  rcases member with rfl | rfl | rfl | rfl <;> exact ⟨_, rfl⟩

/-- What an enclosed pattern takes begins and ends with a separator. -/
theorem describes_enclosed {word : Pattern} {text : Text}
    (described : (enclosed word).Describes text)
    : ∃ inside, word.Describes inside ∧ text = ' ' :: (inside ++ [' ']) := by
  obtain ⟨left, right, isLeft, ⟨inside, last, isWord, isLast, rfl⟩, rfl⟩ := described
  rw [Pattern.describes_char.mp isLeft, Pattern.describes_char.mp isLast]
  exact ⟨inside, isWord, rfl⟩

theorem exists_of_matchAt {scanner : Scanner} (isEnclosed : scanner.IsEnclosed) {position : Nat}
    {text : Text} {hit : Hit} (matched : scanner.matchAt position text = some hit)
    : ∃ inside rest : Text,
        text = ' ' :: (inside ++ ' ' :: rest)
        ∧ hit.span = ⟨position, position + 1 + inside.size + 1⟩ := by
  obtain ⟨rule, member, matched⟩ := List.exists_of_findSome?_eq_some matched
  obtain ⟨rest, started, rfl⟩ := Option.map_eq_some_iff.mp matched
  obtain ⟨word, isWord⟩ := isEnclosed rule member
  rw [isWord] at started
  obtain ⟨taken, rfl, described⟩ := Pattern.exists_of_matchStart? started
  obtain ⟨inside, -, rfl⟩ := describes_enclosed described
  refine ⟨inside, rest, by simp, ?_⟩
  simp only [Text.size_append, Text.size_cons, Layout.utf8Size_separator, Text.size_nil,
    Span.mk.injEq, true_and]
  omega

/-- A hit lies in the text that is searched, behind some skipped part of it. -/
theorem exists_of_find? {scanner : Scanner} (isEnclosed : scanner.IsEnclosed) {position : Nat}
    {text : Text} {hit : Hit} (found : scanner.find? position text = some hit)
    : ∃ skipped inside rest : Text,
        text = skipped ++ ' ' :: (inside ++ ' ' :: rest)
        ∧ hit.span
          = ⟨position + skipped.size, position + skipped.size + 1 + inside.size + 1⟩ := by
  induction text generalizing position with
  | nil =>
      obtain ⟨inside, rest, same, span⟩ := exists_of_matchAt isEnclosed found
      exact ⟨[], inside, rest, same, span⟩
  | cons c more ih =>
      simp only [find?] at found
      split at found
      · next matched =>
          obtain rfl := Option.some.inj found
          obtain ⟨inside, rest, same, span⟩ := exists_of_matchAt isEnclosed matched
          exact ⟨[], inside, rest, same, span⟩
      · obtain ⟨skipped, inside, rest, rfl, span⟩ := ih found
        exact ⟨c :: skipped, inside, rest, rfl, by simpa [Nat.add_assoc] using span⟩

/-- From behind a part of the line, a call searches the rest. -/
theorem next_append_size (scanner : Scanner) (left : Text) {right : Text} (notAtEnd : right ≠ [])
    : scanner.next (left ++ right) left.size
      = match scanner.find? left.size right with
        | none => .finished
        | some hit => if hit.span.stop = 0 then .broken else .hit hit (hit.span.stop - 1) := by
  have notEmpty : right.size ≠ 0 := fun isZero => notAtEnd (Text.eq_nil_of_size_eq_zero isZero)
  have inLine : ¬ (left ++ right).size ≤ left.size := by
    rw [Text.size_append]
    omega
  have place : (left ++ right).size - right.size = left.size := by
    rw [Text.size_append, Nat.add_sub_cancel]
  cases isFound : scanner.find? left.size right <;>
    simp only [next, if_neg inLine, Text.onward_append_size, place, isFound]

/-- A call finds the end of the line, or something in what begins at its cursor or behind it. -/
theorem next_eq_finished_or_exists (scanner : Scanner) (line : Text) (cursor : Nat)
    : scanner.next line cursor = .finished
      ∨ ∃ (passed ahead : Text) (hit : Hit),
          line = passed ++ ahead
          ∧ cursor ≤ passed.size
          ∧ cursor < line.size
          ∧ scanner.find? passed.size ahead = some hit
          ∧ scanner.next line cursor
            = if hit.span.stop = 0 then .broken else .hit hit (hit.span.stop - 1) := by
  by_cases atEnd : line.size ≤ cursor
  · exact .inl (if_pos atEnd)
  · obtain ⟨passed, isLine, reached⟩ := Text.exists_onward (by omega : cursor ≤ line.size)
    have place : line.size - (line.onward cursor).size = passed.size := by
      have sizes := congrArg Text.size isLine
      rw [Text.size_append] at sizes
      omega
    cases isFound : scanner.find? passed.size (line.onward cursor) with
    | none => exact .inl (by simp only [next, if_neg atEnd, place, isFound])
    | some hit =>
        refine .inr ⟨passed, _, hit, isLine, reached, by omega, isFound, ?_⟩
        simp only [next, if_neg atEnd, place, isFound]

/-- A hit is found in what begins at the cursor or behind it, and leaves the cursor at its last byte. -/
theorem exists_of_next_eq_hit {scanner : Scanner} {line : Text} {cursor further : Nat} {hit : Hit}
    (called : scanner.next line cursor = .hit hit further)
    : ∃ passed ahead : Text,
        line = passed ++ ahead
        ∧ cursor ≤ passed.size
        ∧ cursor < line.size
        ∧ scanner.find? passed.size ahead = some hit
        ∧ further = hit.span.stop - 1 := by
  rcases next_eq_finished_or_exists scanner line cursor with
    isLast | ⟨passed, ahead, found, isLine, reached, inLine, isFound, isNext⟩
  · simp [isLast] at called
  · rw [isNext] at called
    split at called
    · contradiction
    · obtain ⟨rfl, rfl⟩ := ScanStep.hit.inj called
      exact ⟨passed, ahead, isLine, reached, inLine, isFound, rfl⟩

/-- A call from behind a part of the line finds the end, or it finds something between two separators
and goes on in front of the second one.
-/
theorem next_cases {scanner : Scanner} (isEnclosed : scanner.IsEnclosed) (left right : Text)
    : scanner.next (left ++ right) left.size = .finished
      ∨ ∃ (skipped inside rest : Text) (hit : Hit),
          right = (skipped ++ ' ' :: inside) ++ ' ' :: rest
          ∧ hit.span
            = ⟨left.size + skipped.size, left.size + skipped.size + 1 + inside.size + 1⟩
          ∧ scanner.next (left ++ right) left.size
            = .hit hit (left ++ (skipped ++ ' ' :: inside)).size := by
  by_cases atEnd : right = []
  · subst atEnd
    exact .inl (by simp [next])
  · rw [next_append_size scanner left atEnd]
    cases isFound : scanner.find? left.size right with
    | none => exact .inl rfl
    | some hit =>
        obtain ⟨skipped, inside, rest, isRight, span⟩ := exists_of_find? isEnclosed isFound
        refine .inr ⟨skipped, inside, rest, hit, by simp [isRight], span, ?_⟩
        have further : hit.span.stop - 1 = (left ++ (skipped ++ ' ' :: inside)).size := by
          simp only [span, Text.size_append, Text.size_cons, Layout.utf8Size_separator]
          omega
        simp only [further]
        rw [if_neg (by rw [span]; exact Nat.succ_ne_zero _)]

/-- A hit between separators takes a scan further along the line. -/
theorem lt_of_next_eq_hit {scanner : Scanner} (isEnclosed : scanner.IsEnclosed) {line : Text}
    {cursor further : Nat} {hit : Hit} (called : scanner.next line cursor = .hit hit further)
    : cursor < line.size ∧ cursor < further := by
  obtain ⟨passed, ahead, -, reached, inLine, isFound, rfl⟩ := exists_of_next_eq_hit called
  obtain ⟨skipped, inside, rest, -, span⟩ := exists_of_find? isEnclosed isFound
  simp only [span]
  omega

/-- What is found between separators has a last byte. -/
theorem next_ne_broken {scanner : Scanner} (isEnclosed : scanner.IsEnclosed) (line : Text)
    (cursor : Nat)
    : scanner.next line cursor ≠ .broken := by
  intro called
  rcases next_eq_finished_or_exists scanner line cursor with
    isLast | ⟨passed, ahead, hit, -, -, -, isFound, isNext⟩
  · simp [isLast] at called
  · obtain ⟨skipped, inside, rest, -, span⟩ := exists_of_find? isEnclosed isFound
    have hasLastByte : hit.span.stop ≠ 0 := by
      rw [span]
      exact Nat.succ_ne_zero _
    rw [isNext, if_neg hasLastByte] at called
    contradiction

-----------------------------------------------------------------------------------------
-- Scans that end
-----------------------------------------------------------------------------------------

/-- A scan from a cursor on comes to the end of the line behind a number of hits. -/
inductive EndsAfter (scanner : Scanner) (line : Text) : Nat → Nat → Prop
  | finished {cursor : Nat} (called : scanner.next line cursor = .finished)
    : EndsAfter scanner line 0 cursor
  | hit {count cursor further : Nat} {hit : Hit}
    (called : scanner.next line cursor = .hit hit further)
    (rest : EndsAfter scanner line count further)
    : EndsAfter scanner line (count + 1) cursor

namespace EndsAfter

variable {scanner : Scanner} {line : Text} {count cursor : Nat}

/-- Behind a hit there is one hit less ahead. -/
theorem exists_later {further : Nat} {hit : Hit} (ends : EndsAfter scanner line count cursor)
    (called : scanner.next line cursor = .hit hit further)
    : ∃ later, count = later + 1 ∧ EndsAfter scanner line later further := by
  cases ends with
  | finished alsoCalled => simp [called] at alsoCalled
  | hit alsoCalled rest =>
      obtain ⟨-, rfl⟩ := ScanStep.hit.inj (called.symm.trans alsoCalled)
      exact ⟨_, rfl, rest⟩

/-- The cursor determines how many hits there are ahead of it, by induction on the scan. -/
theorem unique {other : Nat} (ends : EndsAfter scanner line count cursor)
    (alsoEnds : EndsAfter scanner line other cursor)
    : count = other := by
  induction ends generalizing other with
  | finished called =>
      cases alsoEnds with
      | finished _ => rfl
      | hit alsoCalled _ => simp [called] at alsoCalled
  | hit called _ ih =>
      obtain ⟨later, rfl, alsoLater⟩ := alsoEnds.exists_later called
      rw [ih alsoLater]

/-- On its way a scan comes by every smaller number of hits ahead, each time within the line. -/
theorem exists_cursor (ends : EndsAfter scanner line count cursor) {fewer : Nat}
    (isFewer : fewer < count)
    : ∃ place < line.size, EndsAfter scanner line (fewer + 1) place := by
  induction ends with
  | finished called => omega
  | @hit later cursor further hit called rest ih =>
      obtain ⟨-, -, -, -, inLine, -, -⟩ := exists_of_next_eq_hit called
      rcases Nat.lt_succ_iff_lt_or_eq.mp isFewer with before | rfl
      · exact ih before
      · exact ⟨cursor, inLine, .hit called rest⟩

/-- A scan that comes to the end of the line has no more hits than the line has bytes. Each hit is
found from another byte of the line, for there are never as many hits ahead of two of them.
-/
theorem count_le_size (ends : EndsAfter scanner line count cursor) : count ≤ line.size := by
  choose place inLine endsAt using fun fewer : Fin count => ends.exists_cursor fewer.isLt
  have distinct : Function.Injective fun fewer => (⟨place fewer, inLine fewer⟩ : Fin line.size) := by
    intro fewer other same
    have samePlace : place fewer = place other := congrArg Fin.val same
    have := (endsAt fewer).unique (samePlace ▸ endsAt other)
    exact Fin.ext (by omega)
  simpa using Fintype.card_le_of_injective _ distinct

end EndsAfter

/-- So many calls come to the end of the line if and only if there are fewer hits ahead, by induction
on the calls.
-/
theorem ending_scanFrom_eq_finished_iff {scanner : Scanner} {line : Text} {calls cursor : Nat}
    : (scanner.scanFrom line calls cursor).ending = .finished
      ↔ ∃ count < calls, EndsAfter scanner line count cursor := by
  induction calls generalizing cursor with
  | zero => simp [scanFrom]
  | succ calls ih =>
      rw [scanFrom]
      cases called : scanner.next line cursor with
      | finished => exact ⟨fun _ => ⟨0, calls.succ_pos, .finished called⟩, fun _ => rfl⟩
      | broken =>
          refine ⟨by simp, fun ⟨count, _, ends⟩ => ?_⟩
          cases ends with
          | finished alsoCalled => simp [called] at alsoCalled
          | hit alsoCalled _ => simp [called] at alsoCalled
      | hit hit further =>
          refine ih.trans ⟨fun ⟨count, few, ends⟩ => ?_, fun ⟨count, few, ends⟩ => ?_⟩
          · exact ⟨count + 1, Nat.succ_lt_succ few, .hit called ends⟩
          · obtain ⟨later, rfl, endsLater⟩ := ends.exists_later called
            exact ⟨later, Nat.lt_of_succ_lt_succ few, endsLater⟩

/-- Scans with rules do not fail, by induction on the calls. -/
theorem ending_scanFrom_ne_failed (scanner : Scanner) (line : Text) (calls cursor : Nat)
    : (scanner.scanFrom line calls cursor).ending ≠ .failed := by
  induction calls generalizing cursor with
  | zero => simp [scanFrom]
  | succ calls ih =>
      rw [scanFrom]
      cases scanner.next line cursor with
      | finished => simp
      | broken => simp
      | hit hit further => exact ih further

theorem ending_scanFrom_eq_missing_iff {scanner : Scanner} {line : Text} {calls cursor : Nat}
    : (scanner.scanFrom line calls cursor).ending = .missing
      ↔ (scanner.scanFrom line calls cursor).ending ≠ .finished := by
  have notFailed := ending_scanFrom_ne_failed scanner line calls cursor
  cases isEnding : (scanner.scanFrom line calls cursor).ending <;> simp_all

/-- A scan comes to the end of the line if any number of calls does. -/
theorem ending_scan_eq_finished_iff {scanner : Scanner} {line : Text}
    : (scanner.scan line).ending = .finished
      ↔ ∃ calls, (scanner.scanFrom line calls 0).ending = .finished := by
  refine ⟨fun finished => ⟨_, finished⟩, fun ⟨calls, finished⟩ => ?_⟩
  obtain ⟨count, -, ends⟩ := ending_scanFrom_eq_finished_iff.mp finished
  exact ending_scanFrom_eq_finished_iff.mpr ⟨count, Nat.lt_succ_of_le ends.count_le_size, ends⟩

/-- A scan has no ending if and only if no number of calls comes to one. -/
theorem ending_scan_eq_missing_iff {scanner : Scanner} {line : Text}
    : (scanner.scan line).ending = .missing
      ↔ ∀ calls, (scanner.scanFrom line calls 0).ending = .missing := by
  simp only [scan, ending_scanFrom_eq_missing_iff, ← not_exists, not_iff_not]
  exact ending_scan_eq_finished_iff.trans (by simp)

/-- Enclosing rules come to the end of a line from everywhere, by induction on what is left of it. -/
theorem exists_endsAfter {scanner : Scanner} (isEnclosed : scanner.IsEnclosed) (line : Text)
    (cursor : Nat)
    : ∃ count, EndsAfter scanner line count cursor := by
  induction left : line.size - cursor using Nat.strongRecOn generalizing cursor with
  | ind left ih =>
      cases called : scanner.next line cursor with
      | finished => exact ⟨0, .finished called⟩
      | broken => exact absurd called (next_ne_broken isEnclosed line cursor)
      | hit hit further =>
          obtain ⟨inLine, progress⟩ := lt_of_next_eq_hit isEnclosed called
          obtain ⟨count, ends⟩ := ih _ (by omega) further rfl
          exact ⟨count + 1, .hit called ends⟩

/-- A scan of a line with enclosing rules reads it to its end. -/
theorem ending_scan_of_isEnclosed {scanner : Scanner} (isEnclosed : scanner.IsEnclosed) (line : Text)
    : (scanner.scan line).ending = .finished := by
  obtain ⟨count, ends⟩ := exists_endsAfter isEnclosed line 0
  exact ending_scanFrom_eq_finished_iff.mpr ⟨count, Nat.lt_succ_of_le ends.count_le_size, ends⟩

-----------------------------------------------------------------------------------------
-- Rules that get around their separators
-----------------------------------------------------------------------------------------

/-- The scanner of a rule that closes a bracket which it did not open: one alternative has the first
separator, the other one has the second.
-/
def unbalanced : Scanner :=
  [(.alt (.seq (.char ' ') (.char 'x')) (.seq .empty (.char ' ')), .left)]

theorem compile_unbalanced : compile [⟨"x)|(", .left⟩] = .ok unbalanced :=
  rfl

end Scanner

end TaggedText
