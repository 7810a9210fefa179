import TaggedText.Proofs.Spacing.Feeds
import TaggedText.Proofs.Spacing.WordRules

/-!
Scans call by call. A call searches the line from the cursor on, looks up what the pattern that was
found removes, and leaves the cursor at the last byte of what was found. Rules that are patterns by
themselves are found with a separator at either end, so that every call gets further along the line
and a scan comes to its end. A rule that closes a bracket which it did not open gets around this.
-/

namespace TaggedText

/-- Rules as a search uses them: their patterns, and apart from these what each of them removes. -/
structure CompiledRules where
  patterns : List Pattern
  removals : List Removal

namespace CompiledRules

/-- The rules of a scanner. -/
def ofScanner (scanner : Scanner) : CompiledRules where
  patterns := scanner.map (·.1)
  removals := scanner.map (·.2)

/-- The span and the number of the first pattern that matches at the start of a text which begins at a
position. The first pattern has a number.
-/
def matchFrom? (position : Nat) (text : Text) (number : Nat) : List Pattern → Option (Span × Nat)
  | [] => none
  | pattern :: others =>
      match pattern.matchStart? text with
      | some rest => some (⟨position, position + (text.size - Text.size rest)⟩, number)
      | none => matchFrom? position text (number + 1) others

/-- The span and the number of the leftmost match in a text that begins at a position. -/
def find? (rules : CompiledRules) (position : Nat) : Text → Option (Span × Nat)
  | [] => matchFrom? position [] 0 rules.patterns
  | c :: rest =>
      match matchFrom? position (c :: rest) 0 rules.patterns with
      | some found => some found
      | none => find? rules (position + c.utf8Size) rest

/-- What is found, as a hit. There is none if nothing is known of the number of the pattern. -/
def hit? (rules : CompiledRules) (found : Span × Nat) : Option Hit :=
  rules.removals[found.2]?.map (Hit.mk found.1)

/-- One call of a scan. It fails if the pattern that is found is an unknown one. There is no result at
all if what is found has no last byte.
-/
def call? (rules : CompiledRules) (cursor : Feed.Cursor) : Option (Reading × Feed.Cursor) :=
  if cursor.line.size ≤ cursor.position then some (.finished, cursor)
  else
    let ahead := cursor.line.onward cursor.position
    match rules.find? (cursor.line.size - ahead.size) ahead with
    | none => some (.finished, { cursor with position := cursor.line.size })
    | some found =>
        if found.1.stop = 0 then none
        else
          let later := { cursor with position := found.1.stop - 1 }
          match rules.hit? found with
          | none => some (.failed, later)
          | some hit => some (.hit hit, later)

/-- The calls from a cursor on up to the one that finds the end of the line: the hits that they give,
and the positions of the cursor in front of the first call and behind each of them.
-/
inductive Scans (rules : CompiledRules) : Feed.Cursor → List Hit → List Nat → Prop
  | finished {cursor last : Feed.Cursor} (called : rules.call? cursor = some (.finished, last))
    : Scans rules cursor [] [cursor.position, last.position]
  | hit {cursor later : Feed.Cursor} {hit : Hit} {hits : List Hit} {positions : List Nat}
    (called : rules.call? cursor = some (.hit hit, later)) (rest : Scans rules later hits positions)
    : Scans rules cursor (hit :: hits) (cursor.position :: positions)

-----------------------------------------------------------------------------------------
-- Calls of a scanner
-----------------------------------------------------------------------------------------

/-- A pattern that matches is known by its number, wherever the numbers begin, by induction on the
patterns.
-/
theorem matchFrom?_ofScanner (front scanner : Scanner) (position : Nat) (text : Text)
    : (matchFrom? position text front.length (ofScanner scanner).patterns).map
        (ofScanner (front ++ scanner)).hit?
      = (scanner.matchAt position text).map some := by
  induction scanner generalizing front with
  | nil => rfl
  | cons rule others ih =>
      have later := ih (front ++ [rule])
      rw [List.length_append, List.length_singleton, List.append_assoc, List.singleton_append] at later
      have known
          : (ofScanner (front ++ rule :: others)).removals[front.length]? = some rule.2 := by
        simp [ofScanner]
      simp only [Scanner.matchAt, List.findSome?_cons, ofScanner, List.map_cons, matchFrom?]
        at later ⊢
      cases rule.1.matchStart? text with
      | none => exact later
      | some rest =>
          simp only [Option.map_some, hit?]
          exact congrArg some (congrArg (Option.map _) known)

/-- What is found has a pattern that is known, by induction on the text. -/
theorem find?_ofScanner (scanner : Scanner) (position : Nat) (text : Text)
    : ((ofScanner scanner).find? position text).map (ofScanner scanner).hit?
      = (scanner.find? position text).map some := by
  induction text generalizing position with
  | nil => exact matchFrom?_ofScanner [] scanner position []
  | cons c rest ih =>
      have here := matchFrom?_ofScanner [] scanner position (c :: rest)
      rw [List.length_nil, List.nil_append] at here
      rw [find?, Scanner.find?]
      cases found : matchFrom? position (c :: rest) 0 (ofScanner scanner).patterns with
      | none =>
          have nothing : scanner.matchAt position (c :: rest) = none := by
            simpa [found] using here.symm
          simpa only [nothing] using ih (position + c.utf8Size)
      | some taken =>
          rw [found] at here
          cases matched : scanner.matchAt position (c :: rest) with
          | none => simp [matched] at here
          | some hit => simpa only [matched] using here

variable {scanner : Scanner}

/-- A call finds what a step of the scan finds, with the removal of the pattern that was found. -/
theorem call?_ofScanner (scanner : Scanner) (line : Text) (position : Nat)
    : (ofScanner scanner).call? { line, position }
      = match scanner.next line position with
        | .hit hit further => some (.hit hit, { line, position := further })
        | .finished => some (.finished, { line, position := max position line.size })
        | .broken => none := by
  by_cases atEnd : line.size ≤ position
  · simp only [call?, Scanner.next, if_pos atEnd, Nat.max_eq_left atEnd]
  · simp only [call?, Scanner.next, if_neg atEnd,
      Nat.max_eq_right (Nat.le_of_lt (Nat.lt_of_not_le atEnd))]
    have looked := find?_ofScanner scanner (line.size - (line.onward position).size)
      (line.onward position)
    generalize line.onward position = ahead at looked ⊢
    cases isFound : (ofScanner scanner).find? (line.size - ahead.size) ahead with
    | none =>
        have nothing : scanner.find? (line.size - ahead.size) ahead = none := by
          simpa [isFound] using looked.symm
        rw [nothing]
    | some found =>
        cases isHit : scanner.find? (line.size - ahead.size) ahead with
        | none => simp [isFound, isHit] at looked
        | some hit =>
            have known : (ofScanner scanner).hit? found = some hit := by
              simpa [isFound, isHit] using looked
            have sameSpan : found.1 = hit.span := by
              obtain ⟨removal, -, rfl⟩ := Option.map_eq_some_iff.mp known
              rfl
            simp only [known, sameSpan]
            split <;> rfl

/-- The calls that come to the end of a line give the hits of the scan, by induction on the calls. -/
theorem scanFrom_of_scans {line : Text} {position calls : Nat} {hits : List Hit} {positions : List Nat}
    (scans : (ofScanner scanner).Scans { line, position } hits positions)
    (enough : hits.length < calls)
    : scanner.scanFrom line calls position = { hits } := by
  generalize isCursor : ({ line, position } : Feed.Cursor) = cursor at scans
  induction scans generalizing position calls with
  | @finished cursor last called =>
      subst isCursor
      obtain ⟨calls, rfl⟩ := Nat.exists_eq_succ_of_ne_zero (Nat.ne_of_gt enough)
      rw [call?_ofScanner] at called
      rw [Scanner.scanFrom]
      cases isNext : scanner.next line position <;> simp_all
  | @hit cursor later hit hits positions called rest ih =>
      subst isCursor
      obtain ⟨calls, rfl⟩ := Nat.exists_eq_succ_of_ne_zero (Nat.ne_zero_of_lt enough)
      rw [call?_ofScanner] at called
      rw [Scanner.scanFrom]
      cases isNext : scanner.next line position with
      | hit found further =>
          simp only [isNext, Option.some.injEq, Prod.mk.injEq, Reading.hit.injEq] at called
          obtain ⟨rfl, rfl⟩ := called
          simp only [ih (Nat.lt_of_succ_lt_succ enough) rfl]
      | finished => simp [isNext] at called
      | broken => simp [isNext] at called

-----------------------------------------------------------------------------------------
-- Scans of enclosing rules
-----------------------------------------------------------------------------------------

/-- Hits of a line, one behind the other. Each lies in the line, between two separators that belong to
it, and begins behind the start of those before, though not behind their last byte.
-/
structure InLine (line : Text) (hits : List Hit) : Prop where
  within : ∀ hit ∈ hits, hit.span.start + 2 ≤ hit.span.stop ∧ hit.span.stop ≤ line.size
  enclosed
    : ∀ hit ∈ hits,
        ∃ inside : Text,
          line.slice? hit.span.start hit.span.stop = some (' ' :: (inside ++ [' ']))
  ascending
    : hits.Pairwise fun hit later =>
        hit.span.start < later.span.start ∧ hit.span.stop - 1 ≤ later.span.start

/-- A hit between two separators may stand in front of hits from the second one on. -/
theorem InLine.cons {left skipped inside rest : Text} {hit : Hit} {hits : List Hit}
    (span
      : hit.span = ⟨left.size + skipped.size, left.size + skipped.size + 1 + inside.size + 1⟩)
    (behind : ∀ later ∈ hits, left.size + skipped.size + 1 + inside.size ≤ later.span.start)
    (inLine : InLine (left ++ ((skipped ++ ' ' :: inside) ++ ' ' :: rest)) hits)
    : InLine (left ++ ((skipped ++ ' ' :: inside) ++ ' ' :: rest)) (hit :: hits) where
  within := by
    refine List.forall_mem_cons.mpr ⟨?_, inLine.within⟩
    simp only [span, Text.size_append, Text.size_cons, Layout.utf8Size_separator]
    omega
  enclosed := by
    refine List.forall_mem_cons.mpr ⟨⟨inside, ?_⟩, inLine.enclosed⟩
    refine Text.slice?_eq_some.mpr ⟨left ++ skipped, rest, by simp, ?_, ?_⟩
    · rw [span, Text.size_append]
    · simp only [span, Text.size_append, Text.size_cons, Layout.utf8Size_separator, Text.size_nil]
      omega
  ascending := by
    refine List.pairwise_cons.mpr ⟨fun later member => ?_, inLine.ascending⟩
    have := behind later member
    rw [span]
    simp only
    omega

/-- A scan from behind a part of a line that comes to its end, with its hits and the positions of its
cursor.
-/
structure Completes (scanner : Scanner) (left right : Text) (hits : List Hit) (positions : List Nat)
    : Prop where
  scans : (ofScanner scanner).Scans ⟨left ++ right, left.size⟩ hits positions
  fewer : hits.length ≤ right.size - 1
  behind : ∀ hit ∈ hits, left.size ≤ hit.span.start
  inLine : InLine (left ++ right) hits
  atBoundaries : ∀ position ∈ positions, (left ++ right).isBoundary position = true

namespace Completes

/-- A call that finds the end completes a scan without hits. -/
theorem finished {left right : Text} (isLast : scanner.next (left ++ right) left.size = .finished)
    : Completes scanner left right [] [left.size, (left ++ right).size] where
  scans := by
    have within : left.size ≤ (left ++ right).size := by
      rw [Text.size_append]
      exact Nat.le_add_right _ _
    have called := call?_ofScanner scanner (left ++ right) left.size
    rw [isLast, Nat.max_eq_right within] at called
    exact .finished called
  fewer := Nat.zero_le _
  behind := nofun
  inLine := ⟨nofun, nofun, .nil⟩
  atBoundaries := by
    have atSize := Text.isBoundary_size (left ++ right)
    simp only [List.forall_mem_cons, Text.isBoundary_append_size, atSize, List.not_mem_nil,
      false_imp_iff, implies_true, and_self]

/-- A call that finds something between two separators leads to a scan from the second one on. -/
theorem hit {left skipped inside rest : Text} {hit : Hit} {hits : List Hit} {positions : List Nat}
    (span
      : hit.span = ⟨left.size + skipped.size, left.size + skipped.size + 1 + inside.size + 1⟩)
    (isNext
      : scanner.next (left ++ ((skipped ++ ' ' :: inside) ++ ' ' :: rest)) left.size
        = .hit hit (left ++ (skipped ++ ' ' :: inside)).size)
    (later : Completes scanner (left ++ (skipped ++ ' ' :: inside)) (' ' :: rest) hits positions)
    : Completes scanner left ((skipped ++ ' ' :: inside) ++ ' ' :: rest) (hit :: hits)
        (left.size :: positions) := by
  obtain ⟨scans, fewer, behind, inLine, atBoundaries⟩ := later
  rw [List.append_assoc] at scans inLine atBoundaries
  have place
      : (left ++ (skipped ++ ' ' :: inside)).size
        = left.size + skipped.size + 1 + inside.size := by
    simp only [Text.size_append, Text.size_cons, Layout.utf8Size_separator]
    omega
  have called :=
    call?_ofScanner scanner (left ++ ((skipped ++ ' ' :: inside) ++ ' ' :: rest)) left.size
  rw [isNext] at called
  rw [place] at behind
  refine ⟨.hit called scans, ?_, List.forall_mem_cons.mpr ⟨?_, fun other member => ?_⟩,
    inLine.cons span behind,
    List.forall_mem_cons.mpr ⟨Text.isBoundary_append_size left _, atBoundaries⟩⟩
  · simp only [List.length_cons, Text.size_append, Text.size_cons, Layout.utf8Size_separator]
      at fewer ⊢
    omega
  · rw [span]
    exact Nat.le_add_right _ _
  · have := behind other member
    omega

end Completes

/-- A scan with enclosing rules from behind a part of the line comes to its end, by induction on what is
left of the line. Every call is made in front of less than the one before.
-/
theorem exists_completes (isEnclosed : scanner.IsEnclosed) (left right : Text)
    : ∃ hits positions, Completes scanner left right hits positions := by
  induction size : right.length using Nat.strongRecOn generalizing left right with
  | ind length ih =>
      rcases Scanner.next_cases isEnclosed left right with
        isLast | ⟨skipped, inside, rest, hit, rfl, span, isNext⟩
      · exact ⟨[], _, .finished isLast⟩
      · have shorter : (' ' :: rest).length < length := by
          simp only [← size, List.length_append, List.length_cons]
          omega
        obtain ⟨hits, positions, later⟩ :=
          ih _ shorter (left ++ (skipped ++ ' ' :: inside)) (' ' :: rest) rfl
        exact ⟨hit :: hits, _, .hit span isNext later⟩

/-- A scan of any line with rules that enclose words in separators comes to its end after fewer hits
than the line has bytes. It never fails, its cursor stays at boundaries of the line, and its hits
follow each other between separators; they are all hits that the annotator takes. Rules that are
patterns by themselves compile to such rules, and the rules of every language are patterns by
themselves.
-/
theorem scans_to_end (isEnclosed : scanner.IsEnclosed) (line : Text)
    : (∃ hits positions,
        (ofScanner scanner).Scans { line } hits positions
        ∧ (line = [] → hits = [])
        ∧ (line ≠ [] → hits.length < line.size)
        ∧ InLine line hits
        ∧ (∀ position ∈ positions, position ≤ line.size ∧ line.isBoundary position = true)
        ∧ (Annotator.ofScanner scanner).scan line = { hits })
      ∧ (∀ rules : List SpacingRule,
        (∀ rule ∈ rules, rule.word?.isSome)
        → ∃ compiled, Scanner.compile rules = .ok compiled ∧ compiled.IsEnclosed)
      ∧ ∀ set : RuleSet, ∀ rule ∈ set.rules, rule.word?.isSome := by
  refine ⟨?_, fun rules areReadable => ?_, fun set rule member => ?_⟩
  · obtain ⟨hits, positions, completes⟩ : ∃ hits positions, Completes scanner [] line hits positions :=
      exists_completes isEnclosed [] line
    have fewer := completes.fewer
    refine ⟨hits, positions, completes.scans, ?_, fun notEmpty => ?_, completes.inLine,
      fun position member => ?_, scanFrom_of_scans completes.scans (by omega)⟩
    · rintro rfl
      simpa using fewer
    · have notZero := mt Text.eq_nil_of_size_eq_zero notEmpty
      omega
    · have atBoundary := completes.atBoundaries position member
      exact ⟨Text.isBoundary_le_size atBoundary, atBoundary⟩
  · exact ⟨_, Scanner.compileFrom_of_isSome_word? areReadable 0, WordRules.isEnclosed_scanner _⟩
  · exact (SpacingRule.isWordRule_of_mem_rules set rule member).isSome_word?

/-- A word without text, one that is spread over separators, and one that begins with what another rule
matches. Two of the hits share a separator, and the last one begins behind a separator of its own.
-/
theorem scans_to_end_across_separators
    : let rules : List SpacingRule := [⟨"", .both⟩, ⟨".* ,|é*", .left⟩, ⟨"a|, b?", .right⟩]
      let line : Text := "a  é a ,  é , b  ".toList
      let hits : List Hit := [⟨⟨1, 3⟩, .both⟩, ⟨⟨2, 16⟩, .left⟩, ⟨⟨17, 19⟩, .both⟩]
      (∀ rule ∈ rules, rule.word?.isSome)
      ∧ ∃ scanner positions,
          Scanner.compile rules = .ok scanner
          ∧ scanner.IsEnclosed
          ∧ (ofScanner scanner).Scans { line } hits positions
          ∧ InLine line hits
          ∧ ∀ position ∈ positions, position ≤ line.size ∧ line.isBoundary position = true := by
  intro rules line hits
  have areReadable : ∀ rule ∈ rules, rule.word?.isSome := List.all_eq_true.mp (by decide +kernel)
  have isEnclosed := (SpacingRule.words rules).isEnclosed_scanner
  obtain ⟨⟨given, positions, scans, -, -, inLine, atBoundaries, taken⟩, -⟩ :=
    scans_to_end isEnclosed line
  have computed : ((SpacingRule.words rules).scanner.scan line).hits = hits := by decide +kernel
  obtain rfl : given = hits := (congrArg Scan.hits taken).symm.trans computed
  exact ⟨areReadable, _, positions, Scanner.compileFrom_of_isSome_word? areReadable 0, isEnclosed,
    scans, inLine, atBoundaries⟩

-----------------------------------------------------------------------------------------
-- Rules that are no patterns by themselves
-----------------------------------------------------------------------------------------

/-- A call that leaves its cursor where it was is made again and again, by induction on the calls. -/
theorem not_scans_of_stays {rules : CompiledRules} {cursor : Feed.Cursor} {hit : Hit}
    (stays : rules.call? cursor = some (.hit hit, cursor)) (hits : List Hit) (positions : List Nat)
    : ¬ rules.Scans cursor hits positions := by
  intro scans
  induction scans with
  | finished called => simp [stays] at called
  | hit called _ ih =>
      obtain ⟨-, rfl⟩ := Prod.mk.inj (Option.some.inj (stays.symm.trans called))
      exact ih stays

/-- A rule that closes a bracket which it did not open is no pattern by itself, but it is read between
separators, as one alternative with the first of them and another with the second. A lone separator
is a hit for it, whose last byte is where the search began, and the scan never ends.
-/
theorem scan_stays_at_separator
    : let rule : SpacingRule := ⟨"x)|(", .left⟩
      let start : Feed.Cursor := { line := [' '] }
      rule.word? = none
      ∧ ∃ scanner,
          Scanner.compile [rule] = .ok scanner
          ∧ (ofScanner scanner).call? start = some (.hit ⟨⟨0, 1⟩, .left⟩, start)
          ∧ ∀ hits positions, ¬ (ofScanner scanner).Scans start hits positions := by
  intro rule start
  have stays
      : (ofScanner .unbalanced).call? start = some (.hit ⟨⟨0, 1⟩, .left⟩, start) :=
    rfl
  exact ⟨by decide +kernel, .unbalanced, Scanner.compile_unbalanced, stays, not_scans_of_stays stays⟩

end CompiledRules

end TaggedText
