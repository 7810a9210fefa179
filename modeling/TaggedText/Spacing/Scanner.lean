import TaggedText.Spacing.Rule

/-!
Scanning a line of words with spacing rules. A rule meets a word together with the separators
around it. Among the words that rules meet the scan takes the leftmost, among the rules that
meet it the earliest, and goes on from the separator behind it, so that neighbouring words can
share a separator. Main statement: the built-in patterns are what their written form says.
-/

namespace TaggedText

/-- How a scan of a line ends: at the end of the line, or with a failure to read on. There is no
ending if it goes on for ever or breaks off.
-/
inductive ScanEnd where
  | finished
  | failed
  | missing
deriving DecidableEq, Repr

/-- What a scan of a line gives: its hits, and how it ends behind them. -/
structure Scan where
  hits : List Hit := []
  ending : ScanEnd := .finished
deriving DecidableEq

/-- What one call of a scan gives: a hit with the cursor behind it, or the end of the line. It breaks
off if what it finds has no last byte on which to put the cursor.
-/
inductive ScanStep where
  | hit (hit : Hit) (cursor : Nat)
  | finished
  | broken

/-- Patterns of what to hit, with what to remove there, in order of precedence. -/
abbrev Scanner := List (Pattern × Removal)

namespace Scanner

/-- A pattern between two separators. -/
def enclosed (word : Pattern) : Pattern :=
  .seq (.char ' ') (.seq word (.char ' '))

/-- The written form of a rule's pattern between two separators. -/
def enclosedText (pattern : String) : Text :=
  " (?:".toList ++ pattern.toList ++ ") ".toList

/-- Reads the patterns of rules, the first of which has an index. The index of a rule whose
pattern cannot be read is the error. A scanner need not come from here: its patterns can say more
than what the reader of patterns knows.
-/
def compileFrom (index : Nat) : List SpacingRule → Except Nat Scanner
  | [] => .ok []
  | rule :: rest =>
      match Pattern.parse? (enclosedText rule.pattern) with
      | none => .error index
      | some pattern => (compileFrom (index + 1) rest).map ((pattern, rule.removal) :: ·)

/-- The scanner of some rules, or the index of the first one that cannot be read. -/
def compile (rules : List SpacingRule) : Except Nat Scanner :=
  compileFrom 0 rules

/-- The stop and the removal of the first pattern that matches at the start of a text. -/
def matchAt (scanner : Scanner) (position : Nat) (text : Text) : Option Hit :=
  scanner.findSome? fun (pattern, removal) =>
    (pattern.matchStart? text).map fun rest =>
      ⟨⟨position, position + (text.size - Text.size rest)⟩, removal⟩

/-- The leftmost hit in a text that begins at a position. -/
def find? (scanner : Scanner) (position : Nat) : Text → Option Hit
  | [] => scanner.matchAt position []
  | c :: rest =>
      match scanner.matchAt position (c :: rest) with
      | some hit => some hit
      | none => find? scanner (position + c.utf8Size) rest

/-- One call of a scan, which searches the line from a cursor on and leaves the cursor at the last
byte of what it finds. From within a character it searches from the character behind on.
-/
def next (scanner : Scanner) (line : Text) (cursor : Nat) : ScanStep :=
  if line.size ≤ cursor then .finished
  else
    let ahead := line.onward cursor
    match scanner.find? (line.size - ahead.size) ahead with
    | none => .finished
    | some hit => if hit.span.stop = 0 then .broken else .hit hit (hit.span.stop - 1)

/-- Up to a number of calls from a cursor on. The ending is missing if none of them comes to the end of
the line, or if one of them breaks off.
-/
def scanFrom (scanner : Scanner) (line : Text) : Nat → Nat → Scan
  | 0, _ => { ending := .missing }
  | calls + 1, cursor =>
      match scanner.next line cursor with
      | .finished => {}
      | .broken => { ending := .missing }
      | .hit hit cursor =>
          let scan := scanFrom scanner line calls cursor
          { scan with hits := hit :: scan.hits }

/-- A scan of a line. If it has not come to the end of the line after so many calls, then some of them
were made at the same byte, and it never will.
-/
def scan (scanner : Scanner) (line : Text) : Scan :=
  scanner.scanFrom line (line.size + 1) 0

end Scanner

namespace RuleSet

/-- A text in any case. -/
def anyCase (text : String) : Pattern :=
  .seqAll (text.toList.map fun c => .one (.anyCase (.single c)))

/-- A straight or a curved apostrophe. -/
def apostropheSign : Pattern :=
  .one (.unionAll [.anyCase (.single '\''), .anyCase (.single '\u2019')])

/-- One of the characters of a text. -/
def oneOf (characters : String) : Pattern :=
  .one (.ofList characters.toList)

/-- The pattern of closing punctuation. -/
def closingPattern : RuleSet → Pattern
  | french => .plus (oneOf ".,%)]\x7d\u2026")
  | _ => .plus (oneOf ".,;:!?%)]\x7d\u00BB\u201D\u2026")

/-- The pattern of opening punctuation. -/
def openingPattern : RuleSet → Pattern
  | french => oneOf "([\x7b\u201C\u00BF\u00A1"
  | _ => oneOf "([\x7b\u00AB\u201C\u00BF\u00A1$\u20AC\u00A3#"

/-- The pattern of parts of words around an apostrophe. -/
def apostrophePattern : RuleSet → Pattern
  | common =>
      .alt
        (.seq apostropheSign (.altAll (["s", "re", "ve", "ll", "d", "m", "t"].map anyCase)))
        (.seqAll [anyCase "n", apostropheSign, anyCase "t"])
  | _ =>
      .seq
        (.altAll (
          .one (.unionAll ("cdjlmnst".toList.map fun c => .anyCase (.single c)))
            :: ["qu", "un", "all", "dell", "dall", "nell", "sull"].map anyCase))
        apostropheSign

/-- The scanner of a rule set. -/
def scanner (set : RuleSet) : Scanner :=
  [
    (Scanner.enclosed set.closingPattern, .left),
    (Scanner.enclosed set.openingPattern, .right),
    (Scanner.enclosed set.apostrophePattern, set.apostrophe.removal),
    (Scanner.enclosed (oneOf "/@"), .both)
  ]

/-- The scanner of a rule set is what its rules say as they are written. -/
theorem compile_rules (set : RuleSet) : Scanner.compile set.rules = .ok set.scanner := by
  have found : (Scanner.compile set.rules).toOption = some set.scanner := by
    cases set <;> decide +kernel
  cases compiled : Scanner.compile set.rules with
  | error index => simp [compiled, Except.toOption] at found
  | ok scanner => simpa [compiled, Except.toOption] using found

end RuleSet

end TaggedText
