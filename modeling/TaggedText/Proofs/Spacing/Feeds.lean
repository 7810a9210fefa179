import TaggedText.Proofs.Spacing.Scanning

/-!
Annotators as they run. A feed keeps the line that it reads and the place that it has come to, and
gives one hit at a time; what an earlier line has left in it is still there when the next line comes.
Rules read in this way begin anew with every line, and find what they find in the line at once.
-/

namespace TaggedText

/-- What a feed gives next. -/
inductive Reading where
  | hit (hit : Hit)
  | finished
  | failed

/-- A running annotator: its state, how it takes up a line, and how it reads on. It gives no more hits
than it has ahead of it.
-/
structure Feed where
  State : Type
  reset : State → Text → State
  next : State → Reading × State
  ahead : State → Nat
  progress : ∀ state hit later, next state = (.hit hit, later) → ahead later < ahead state

namespace Feed

/-- Reads on to the end of the line or the first failure, with a limit to the number of readings. -/
def readUpTo (feed : Feed) : Nat → feed.State → Scan × feed.State
  | 0, state => ({ ending := .missing }, state)
  | limit + 1, state =>
      match feed.next state with
      | (.finished, later) => ({}, later)
      | (.failed, later) => ({ ending := .failed }, later)
      | (.hit hit, later) =>
          let (scan, last) := readUpTo feed limit later
          ({ scan with hits := hit :: scan.hits }, last)

/-- Reads a line to its end or the first failure. -/
def read (feed : Feed) (state : feed.State) (line : Text) : Scan × feed.State :=
  let begun := feed.reset state line
  feed.readUpTo (feed.ahead begun + 1) begun

/-- The annotator of a feed in some state. -/
def annotator (feed : Feed) (state : feed.State) : Annotator where
  scan line := (feed.read state line).1

/-- What a feed reads of a line does not depend on what it has read before. -/
def Restarts (feed : Feed) : Prop :=
  ∀ state other line, (feed.read state line).1 = (feed.read other line).1

-----------------------------------------------------------------------------------------
-- Rules
-----------------------------------------------------------------------------------------

/-- A line and the place in it from which a scan goes on. -/
structure Cursor where
  line : Text := []
  position : Nat := 0

/-- Scans with rules that enclose words in separators. -/
def ofRules (scanner : Scanner) (isEnclosed : scanner.IsEnclosed) : Feed where
  State := Cursor
  reset _ line := { line }
  next cursor :=
    match scanner.next cursor.line cursor.position with
    | .hit hit position => (.hit hit, { cursor with position })
    | .finished => (.finished, { cursor with position := max cursor.position cursor.line.size })
    -- What is found between separators has a last byte.
    | .broken => (.failed, cursor)
  ahead cursor := cursor.line.size - cursor.position
  progress cursor hit later reading := by
    split at reading
    · next called =>
        obtain ⟨-, rfl⟩ := Prod.mk.inj reading
        have moved := Scanner.lt_of_next_eq_hit isEnclosed called
        simp only
        omega
    · simp at reading
    · simp at reading

/-- The built-in feed of a language. -/
def ofLanguage (language : String) : Feed :=
  ofRules (RuleSet.ofLanguage language).scanner (Scanner.isEnclosed_ruleSet _)

/-- Rules begin anew with every line, for they keep nothing of an earlier one. -/
theorem restarts_ofRules (scanner : Scanner) (isEnclosed : scanner.IsEnclosed)
    : (ofRules scanner isEnclosed).Restarts :=
  fun _ _ _ => rfl

/-- What rules read is their scan, by induction on the limit. -/
theorem readUpTo_ofRules {scanner : Scanner} (isEnclosed : scanner.IsEnclosed) (limit : Nat)
    (cursor : Cursor)
    : ((ofRules scanner isEnclosed).readUpTo limit cursor).1
      = scanner.scanFrom cursor.line limit cursor.position := by
  induction limit generalizing cursor with
  | zero => rfl
  | succ limit ih =>
      simp only [readUpTo, Scanner.scanFrom]
      cases called : scanner.next cursor.line cursor.position with
      | hit hit position =>
          have later := ih { cursor with position }
          simp only [ofRules, called] at later ⊢
          rw [later]
      | finished => simp [ofRules, called]
      | broken => exact absurd called (Scanner.next_ne_broken isEnclosed _ _)

/-- Rules that are read from a feed are the annotator that scans with them. -/
theorem annotator_ofRules {scanner : Scanner} (isEnclosed : scanner.IsEnclosed) (cursor : Cursor)
    : (ofRules scanner isEnclosed).annotator cursor = .ofScanner scanner :=
  congrArg Annotator.mk
    (funext fun line => readUpTo_ofRules isEnclosed (line.size + 1) { line })

end Feed

end TaggedText
