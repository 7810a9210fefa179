import TaggedText.Proofs.Draft.Consistency
import TaggedText.Proofs.Spacing.Scanning

/-!
Building never meets a defect. Spans of committed edits lie between boundaries of the source, and
what others leave of a span does too, so every claim can be cut out of the source, every gap
between two tokens is a slice or empty, and whatever was served has a maker.
-/

namespace TaggedText

/-- A span lies between boundaries of a text. -/
structure Span.Bounded (text : Text) (span : Span) : Prop where
  start : text.isBoundary span.start = true
  stop : text.isBoundary span.stop = true

-----------------------------------------------------------------------------------------
-- Claims
-----------------------------------------------------------------------------------------

namespace Claims

variable {source : Text}

/-- What a taken span leaves of another is bounded like both, and not empty. -/
theorem bounded_of_mem_minus {span taken piece : Span} (bounded : span.Bounded source)
    (takenBounded : taken.Bounded source) (nonEmpty : span.isEmpty = false)
    (member : piece ∈ span.minus taken)
    : piece.Bounded source ∧ piece.isEmpty = false := by
  simp only [Span.minus] at member
  split at member
  · simp only [List.mem_filter, List.mem_cons, List.not_mem_nil, or_false,
      Bool.not_eq_true'] at member
    obtain ⟨rfl | rfl, notEmpty⟩ := member
    · exact ⟨⟨bounded.start, takenBounded.start⟩, notEmpty⟩
    · exact ⟨⟨takenBounded.stop, bounded.stop⟩, notEmpty⟩
  · rw [List.mem_singleton.mp member]
    exact ⟨bounded, nonEmpty⟩

/-- Cutting taken spans off pieces keeps them bounded, by induction on the taken spans. -/
theorem bounded_of_mem_foldl {taken pieces : List Span}
    (takenBounded : ∀ span ∈ taken, span.Bounded source)
    (bounded : ∀ piece ∈ pieces, piece.Bounded source ∧ piece.isEmpty = false)
    : ∀ piece ∈ taken.foldl (fun pieces other => pieces.flatMap (·.minus other)) pieces,
        piece.Bounded source ∧ piece.isEmpty = false := by
  induction taken generalizing pieces with
  | nil => exact bounded
  | cons other rest ih =>
      refine ih (fun span member => takenBounded span (by simp [member])) fun piece member => ?_
      obtain ⟨whole, isWhole, member⟩ := List.mem_flatMap.mp member
      obtain ⟨wholeBounded, nonEmpty⟩ := bounded whole isWhole
      exact bounded_of_mem_minus wholeBounded (takenBounded other (by simp)) nonEmpty member

theorem bounded_of_mem_remaining {taken : List Span} {span : Span}
    (takenBounded : ∀ span ∈ taken, span.Bounded source) (bounded : span.Bounded source)
    : ∀ piece ∈ remaining taken span, piece.Bounded source ∧ piece.isEmpty = false := by
  refine bounded_of_mem_foldl (fun other member => ?_) fun piece member => ?_
  · exact takenBounded other (List.mem_filter.mp member).1
  · split at member
    · simp at member
    · next nonEmpty =>
        rw [List.mem_singleton.mp member]
        exact ⟨bounded, by simpa using nonEmpty⟩

/-- Bounded pieces that are not empty are slices, so their characters can be gathered. -/
theorem exists_gather {pieces : List Span}
    (bounded : ∀ piece ∈ pieces, piece.Bounded source ∧ piece.isEmpty = false)
    : ∃ text, gather source pieces = .ok text := by
  induction pieces with
  | nil => exact ⟨[], rfl⟩
  | cons piece rest ih =>
      obtain ⟨pieceBounded, nonEmpty⟩ := bounded piece (by simp)
      have ordered : piece.start ≤ piece.stop := by
        simp only [Span.isEmpty, decide_eq_false_iff_not] at nonEmpty
        omega
      obtain ⟨text, slice⟩ := Text.exists_slice ordered pieceBounded.start pieceBounded.stop
      obtain ⟨later, gathered⟩ := ih fun other member => bounded other (by simp [member])
      exact ⟨text ++ later, by simp only [gather, slice, gathered, Except.map]⟩

/-- An edit whose span is bounded, and which has a maker if it was served. -/
def Served (source : Text) (entry : Edit × Bool) : Prop :=
  entry.1.span.Bounded source ∧ (entry.2 = true → entry.1.makesToken = true)

/-- A bounded edit can always be served, or gets nothing. -/
theorem exists_claim {taken : List Span} {edit : Edit}
    (takenBounded : ∀ span ∈ taken, span.Bounded source) (bounded : edit.span.Bounded source)
    : claim source taken edit = .ok none
      ∨ ∃ settled,
          claim source taken edit = .ok (some settled)
          ∧ Served source (settled, true) := by
  simp only [claim]
  by_cases makesToken : edit.makesToken = true
  · have inSource := Text.isBoundary_le_size bounded.stop
    have pieces := bounded_of_mem_remaining takenBounded bounded
    simp only [makesToken, Bool.not_true, Bool.false_eq_true, if_false,
      if_neg (by omega : ¬ source.size < edit.span.stop)]
    cases left : remaining taken edit.span with
    | nil => exact .inl rfl
    | cons first rest =>
        rw [left] at pieces
        obtain ⟨claimed, gathered⟩ := exists_gather pieces
        simp only [gathered, Except.map]
        exact .inr ⟨_, rfl, (pieces first (by simp)).1, fun _ => makesToken⟩
  · simp [makesToken]

/-- Bounded edits can be served in order, by induction on the log. -/
theorem exists_serve {taken : List Span} {log : List Edit}
    (takenBounded : ∀ span ∈ taken, span.Bounded source)
    (bounded : ∀ edit ∈ log, edit.span.Bounded source)
    : ∃ served,
        serve source taken log = .ok served
        ∧ ∀ entry ∈ served, Served source entry := by
  induction log generalizing taken with
  | nil => exact ⟨[], rfl, by simp⟩
  | cons edit rest ih =>
      have editBounded := bounded edit (by simp)
      have restBounded : ∀ edit ∈ rest, edit.span.Bounded source :=
        fun other member => bounded other (by simp [member])
      simp only [serve]
      rcases exists_claim takenBounded editBounded with nothing | ⟨settled, claimed, isServed⟩
      · obtain ⟨served, later, all⟩ := ih takenBounded restBounded
        simp only [nothing, later, Except.map]
        refine ⟨_, rfl, fun entry member => ?_⟩
        rcases List.mem_cons.mp member with same | member
        · exact same ▸ ⟨editBounded, by simp⟩
        · exact all entry member
      · have moreBounded : ∀ span ∈ edit.span :: taken, span.Bounded source := by
          intro span member
          rcases List.mem_cons.mp member with same | member
          · exact same ▸ editBounded
          · exact takenBounded span member
        obtain ⟨served, later, all⟩ := ih moreBounded restBounded
        simp only [claimed, later, Except.map]
        refine ⟨_, rfl, fun entry member => ?_⟩
        rcases List.mem_cons.mp member with same | member
        · exact same ▸ isServed
        · exact all entry member

/-- The order names edits that were served, and no others. -/
theorem mem_order {served : List (Edit × Bool)} {index : Nat}
    : index ∈ order served ↔ ∃ edit, served[index]? = some (edit, true) := by
  simp only [order, List.mem_map, (List.mergeSort_perm _ _).mem_iff, List.mem_filterMap,
    Prod.exists, List.mem_zipIdx_iff_getElem?]
  constructor
  · rintro ⟨start, found, ⟨edit, isServed, place, there, named⟩, rfl⟩
    cases isServed with
    | false => simp at named
    | true =>
        obtain ⟨rfl, rfl⟩ := Prod.mk.inj (Option.some.inj named)
        exact ⟨edit, there⟩
  · rintro ⟨edit, there⟩
    exact ⟨edit.span.start, index, ⟨edit, true, index, there, rfl⟩, rfl⟩

end Claims

-----------------------------------------------------------------------------------------
-- Assembling
-----------------------------------------------------------------------------------------

namespace Assembly

variable {source : Text}

/-- A gap between boundaries can be read, whichever of them comes first. -/
theorem exists_gap {start stop : Nat} (atStart : source.isBoundary start = true)
    (atStop : source.isBoundary stop = true)
    : ∃ space, gap source start stop = .ok space := by
  simp only [gap]
  split
  · exact ⟨none, rfl⟩
  · obtain ⟨between, slice⟩ := Text.exists_slice (by omega : start ≤ stop) atStart atStop
    simp only [slice]
    exact ⟨_, rfl⟩

/-- Bounded edits with makers give tokens wherever they stand. -/
theorem exists_token {previous next : Option Edit} {edit : Edit} (position : Nat)
    (previousBounded : ∀ other, previous = some other → other.span.Bounded source)
    (nextBounded : ∀ other, next = some other → other.span.Bounded source)
    (isServed : Claims.Served source (edit, true))
    : ∃ made, token source previous edit next position = .ok made := by
  obtain ⟨bounded, makesToken⟩ := isServed
  obtain ⟨maker, hasMaker⟩ : ∃ maker, edit.maker = some maker :=
    Option.isSome_iff_exists.mp (makesToken rfl)
  have atLeft : source.isBoundary (previous.elim 0 (·.span.stop)) = true := by
    cases previous with
    | none => exact Text.isBoundary_zero source
    | some other => exact (previousBounded other rfl).stop
  have atRight : source.isBoundary (next.elim source.size (·.span.start)) = true := by
    cases next with
    | none => exact Text.isBoundary_size source
    | some other => exact (nextBounded other rfl).start
  obtain ⟨leftSpace, left⟩ := exists_gap atLeft bounded.start
  obtain ⟨rightSpace, right⟩ := exists_gap bounded.stop atRight
  simp only [token, left, right, hasMaker]
  exact ⟨_, rfl⟩

/-- Bounded edits with makers give a token each, by induction on them. -/
theorem exists_tokens {previous : Option Edit} (position : Nat) {edits : List Edit}
    (previousBounded : ∀ other, previous = some other → other.span.Bounded source)
    (allServed : ∀ edit ∈ edits, Claims.Served source (edit, true))
    : ∃ made, tokens source previous position edits = .ok made := by
  induction edits generalizing previous position with
  | nil => exact ⟨[], rfl⟩
  | cons edit rest ih =>
      have isServed := allServed edit (by simp)
      have nextBounded : ∀ other, rest.head? = some other → other.span.Bounded source := by
        intro other isNext
        exact (allServed other (by simp [List.mem_of_mem_head? isNext])).1
      obtain ⟨made, isMade⟩ := exists_token position previousBounded nextBounded isServed
      obtain ⟨later, areMade⟩ :=
        ih (if made.isWord then position + 1 else position)
          (fun other (same : some edit = some other) => Option.some.inj same ▸ isServed.1)
          (fun other member => allServed other (by simp [member]))
      simp only [tokens, isMade, areMade, Except.map]
      exact ⟨_, rfl⟩

theorem served_unescaped {edit : Edit} (isServed : Claims.Served source (edit, true))
    : Claims.Served source (edit.unescaped, true) := by
  simp only [Edit.unescaped]
  split <;> exact isServed

/-- Drawn edits are served ones, by induction on the order. Each draw changes one entry of the log
and leaves it served.
-/
theorem served_of_mem_draw {log : Array Edit} {order : List Nat}
    (allServed
      : ∀ index ∈ order, ∀ edit, log[index]? = some edit → Claims.Served source (edit, true))
    : ∀ edit ∈ draw log order, Claims.Served source (edit, true) := by
  induction order generalizing log with
  | nil => simp [draw]
  | cons index rest ih =>
      simp only [draw]
      cases found : log[index]? with
      | none => exact ih fun later member => allServed later (by simp [member])
      | some edit =>
          have isServed := served_unescaped (allServed index (by simp) edit found)
          intro other member
          rcases List.mem_cons.mp member with same | member
          · exact same ▸ isServed
          · refine ih (fun later isLater changed there => ?_) other member
            rw [Array.getElem?_setIfInBounds] at there
            split at there
            · split at there
              · exact Option.some.inj there ▸ isServed
              · simp at there
            · exact allServed later (by simp [isLater]) changed there

end Assembly

namespace Draft

/-- A consistent document can be assembled: neither its claims nor its gaps meet a defect. -/
theorem exists_assemble {document : Document} (consistent : document.Consistent)
    (annotations : Annotations)
    : ∃ sentence, assemble document annotations = .ok sentence := by
  have bounded : ∀ edit ∈ document.log, edit.span.Bounded document.source :=
    fun edit member =>
      ⟨(consistent.log edit member).2.2.1, (consistent.log edit member).2.2.2⟩
  have nothingTaken : ∀ span ∈ ([] : List Span), span.Bounded document.source := by simp
  have nothingBefore
      : ∀ other, (none : Option Edit) = some other → other.span.Bounded document.source := by
    simp
  obtain ⟨served, isServed, allServed⟩ := Claims.exists_serve nothingTaken bounded
  have drawn
      : ∀ edit ∈ Assembly.draw (served.map (·.1)).toArray (Claims.order served),
          Claims.Served document.source (edit, true) :=
    Assembly.served_of_mem_draw fun index member edit found => by
      obtain ⟨settled, there⟩ := Claims.mem_order.mp member
      rw [List.getElem?_toArray, List.getElem?_map, there] at found
      exact Option.some.inj found ▸ allServed _ (List.mem_of_getElem? there)
  obtain ⟨made, areMade⟩ := Assembly.exists_tokens 0 nothingBefore drawn
  simp only [assemble, Claims.settle, isServed, Except.map, Assembly.assemble, areMade]
  exact ⟨_, rfl⟩

/-- What is built of an assembled sentence depends on how the scan of the line of its words ends. -/
theorem build_of_assemble {draft : Draft} {document : Document} {assembled : Sentence}
    (loaded : draft.document = some document)
    (isAssembled : assemble document draft.annotations = .ok assembled)
    : match (draft.annotator.scan (Layout.lineOf (assembled.words.map (·.text)))).ending with
      | .finished => ∃ sentence, draft.build = .ok sentence
      | .failed => draft.build = .error .scanFailed
      | .missing => draft.build = .error .unanswered := by
  have line : (Layout.ofWords (assembled.words.map (·.text))).text
      = Layout.lineOf (assembled.words.map (·.text)) := rfl
  simp only [build, loaded, isAssembled, Annotator.annotate, Annotator.markWords, line]
  cases (draft.annotator.scan (Layout.lineOf (assembled.words.map (·.text)))).ending with
  | finished => exact ⟨_, rfl⟩
  | failed => rfl
  | missing => rfl

theorem build_iff_of_assemble {draft : Draft} {document : Document} {assembled : Sentence}
    (loaded : draft.document = some document)
    (isAssembled : assemble document draft.annotations = .ok assembled)
    : let ending := (draft.annotator.scan (Layout.lineOf (assembled.words.map (·.text)))).ending
      (∀ defect, draft.build ≠ .error (.internal defect))
      ∧ ((∃ sentence, draft.build = .ok sentence) ↔ ending = .finished)
      ∧ (draft.build = .error .scanFailed ↔ ending = .failed)
      ∧ (draft.build = .error .unanswered ↔ ending = .missing) := by
  have built := build_of_assemble loaded isAssembled
  generalize (draft.annotator.scan (Layout.lineOf (assembled.words.map (·.text)))).ending = ending
    at built ⊢
  cases ending with
  | finished =>
      obtain ⟨sentence, built⟩ := built
      simp [built]
  | failed => simp [show draft.build = .error .scanFailed from built]
  | missing => simp [show draft.build = .error .unanswered from built]

/-- An assembled sentence is built if rules that enclose words in separators are to mark it. -/
theorem exists_build_of_isEnclosed {draft : Draft} {document : Document} {assembled : Sentence}
    {scanner : Scanner} (loaded : draft.document = some document)
    (isAssembled : assemble document draft.annotations = .ok assembled)
    (isOf : draft.annotator = .ofScanner scanner) (isEnclosed : scanner.IsEnclosed)
    : ∃ sentence, draft.build = .ok sentence := by
  have built := build_of_assemble loaded isAssembled
  rwa [isOf, Annotator.ofScanner, Scanner.ending_scan_of_isEnclosed isEnclosed] at built

end Draft

namespace Workbench

/-- A reachable draft with an input can always be assembled. It is built if the scan of the line of its
words comes to the end of the line, which scans with rules do that enclose words in separators. If
not, then the annotator fails on the line, as rules never do, or there is no answer: rules give none
if and only if no number of calls comes to the end.
-/
theorem Reachable.build_meets_no_defect {draft : Draft} {document : Document}
    (reachable : Reachable (.free draft)) (loaded : draft.document = some document)
    : ∃ assembled,
        Draft.assemble document draft.annotations = .ok assembled
        ∧ (∀ defect, draft.build ≠ .error (.internal defect))
        ∧ let line := Layout.lineOf (assembled.words.map (·.text))
          let ending := (draft.annotator.scan line).ending
          ((∃ sentence, draft.build = .ok sentence) ↔ ending = .finished)
          ∧ (draft.build = .error .scanFailed ↔ ending = .failed)
          ∧ (draft.build = .error .unanswered ↔ ending = .missing)
          ∧ ∀ scanner,
              draft.annotator = .ofScanner scanner
              → draft.build ≠ .error .scanFailed
                ∧ (draft.build = .error .unanswered
                  ↔ ∀ calls, (scanner.scanFrom line calls 0).ending = .missing)
                ∧ (scanner.IsEnclosed → ∃ sentence, draft.build = .ok sentence) := by
  obtain ⟨assembled, isAssembled⟩ :=
    Draft.exists_assemble (reachable.keeps_consistent document loaded) draft.annotations
  obtain ⟨noDefect, onFinished, onFailed, onMissing⟩ :=
    Draft.build_iff_of_assemble loaded isAssembled
  refine ⟨assembled, isAssembled, noDefect, onFinished, onFailed, onMissing, fun scanner isOf => ?_⟩
  refine ⟨fun failed => ?_, ?_, Draft.exists_build_of_isEnclosed loaded isAssembled isOf⟩
  · rw [onFailed, isOf] at failed
    exact Scanner.ending_scanFrom_ne_failed _ _ _ _ failed
  · rw [onMissing, isOf]
    exact Scanner.ending_scan_eq_missing_iff

/-- A rule that closes a bracket which it did not open is compiled, but the scan of a line with it never
comes to the end: it stays at the separator in front of the only word.
-/
theorem Reachable.build_waits_for_endless_scan
    : ∃ scanner draft document,
        Scanner.compile [⟨"x)|(", .left⟩] = .ok scanner
        ∧ run (.free { annotator := .ofScanner scanner })
            [.free (.load ['a']), .free (.apply [.word 0 1 none])]
          = .free draft
        ∧ draft.document = some document
        ∧ draft.build = .error .unanswered
        ∧ ∀ calls, (scanner.scanFrom [' ', 'a', ' '] calls 0).ending = .missing := by
  refine ⟨.unbalanced, _, _, Scanner.compile_unbalanced, rfl, rfl, ?_,
    Scanner.ending_scan_eq_missing_iff.mp rfl⟩
  decide +kernel

/-- A draft is built although a replaced word, a mark across it and a mark of the whole text claim
the same characters, some of them twice.
-/
theorem Reachable.build_meets_no_defect_of_overlapping_marks
    : let steps : List Step := [
        .free (.load "<b>né &amp; b</b>".toList),
        .free (.apply [.token .markup 0 3 (some [' ']), .replace 7 5 ['&']]),
        .free (.apply [.word 2 4 none, .word 1 3 (some ['n', 'e'])]),
        .free (.apply [.word 0 7 none, .word 4 1 (some ['u', 'n', 'd']), .delete 7 4])
      ]
      ∃ draft document,
        run (.free (.ofLanguage "fr")) steps = .free draft
        ∧ draft.document = some document
        ∧ document.log.length = 7
        ∧ draft.annotator = .ofLanguage "fr"
        ∧ ∃ sentence, draft.build = .ok sentence := by
  intro steps
  obtain ⟨draft, document, reached, loaded, logged, isRules⟩
      : ∃ draft document,
          run (.free (.ofLanguage "fr")) steps = .free draft
          ∧ draft.document = some document
          ∧ document.log.length = 7
          ∧ draft.annotator = .ofLanguage "fr" :=
    ⟨_, _, rfl, rfl, by decide +kernel, rfl⟩
  obtain ⟨assembled, -, -, -, -, -, withRules⟩ :=
    Reachable.build_meets_no_defect ⟨_, steps, by decide, reached⟩ loaded
  have built := (withRules _ isRules).2.2 (Scanner.isEnclosed_ruleSet _)
  exact ⟨draft, document, reached, loaded, logged, isRules, built⟩

end Workbench

end TaggedText
