import TaggedText.Proofs.Pattern.Reading
import TaggedText.Proofs.Spacing.Marks
import TaggedText.Proofs.Spacing.Scanning

/-!
Rules that match words. The scan of a line with such rules hits exactly the words that some rule
matches, each together with its two separators, although neighbouring hits share the separator
between them. The marks of a word then follow from the rules that it and its neighbours meet. All of
this is said of the patterns themselves, however they are written.
-/

namespace TaggedText

/-- Patterns of words in order of precedence, each with what to remove around a word that it matches. -/
abbrev WordRules := List (Pattern × Removal)

namespace WordRules

/-- Whether the patterns only match texts without separators. -/
def MatchWords (rules : WordRules) : Prop :=
  ∀ rule ∈ rules, ∀ text, rule.1.matchesAll text = true → ' ' ∉ text

/-- The patterns between separators. -/
def scanner (rules : WordRules) : Scanner :=
  rules.map fun (word, removal) => (Scanner.enclosed word, removal)

theorem isEnclosed_scanner (rules : WordRules) : rules.scanner.IsEnclosed := by
  intro rule member
  obtain ⟨⟨word, removal⟩, -, rfl⟩ := List.mem_map.mp member
  exact ⟨word, rfl⟩

/-- What the first rule that matches a text from its start to its end removes. -/
def removal? (rules : WordRules) (text : Text) : Option Removal :=
  (rules.find? (·.1.matchesAll text)).map (·.2)

/-- One hit for each text that a rule matches, in their order. It spans the text and the
separators around it, the first of which has a position.
-/
def wordHits (rules : WordRules) : Nat → List Text → List Hit
  | _, [] => []
  | position, text :: rest =>
      let behind := position + 1 + text.size
      let later := wordHits rules behind rest
      match rules.removal? text with
      | some removal => ⟨⟨position, behind + 1⟩, removal⟩ :: later
      | none => later

/-- What is removed next to a text of a list, if the list has a text there. -/
def removalAt (rules : WordRules) (texts : List Text) (index : Nat) : Option Removal :=
  texts[index]?.bind rules.removal?

/-- Whether the first rule that matches a text of a list removes the separator in front of it. -/
def RemovesLeft (rules : WordRules) (texts : List Text) (index : Nat) : Prop :=
  ∃ removal, rules.removalAt texts index = some removal ∧ removal.removesLeft = true

/-- Whether the first rule that matches a text of a list removes the separator behind it. -/
def RemovesRight (rules : WordRules) (texts : List Text) (index : Nat) : Prop :=
  ∃ removal, rules.removalAt texts index = some removal ∧ removal.removesRight = true

end WordRules

-----------------------------------------------------------------------------------------
-- The scan of a line of words
-----------------------------------------------------------------------------------------

namespace Scanner

/-- A word's pattern between separators matches the word and nothing longer. -/
theorem matchStart?_enclosed {word : Pattern}
    (isWord : ∀ text, word.matchesAll text = true → ' ' ∉ text) {text : Text}
    (noSeparator : ' ' ∉ text) (rest : Text)
    : (enclosed word).matchStart? (' ' :: (text ++ ' ' :: rest))
      = if word.matchesAll text then some rest else none := by
  have onlyText {left : Text}
      (matched : (enclosed word).matchStart? (' ' :: (text ++ ' ' :: rest)) = some left)
      : word.matchesAll text = true ∧ left = rest := by
    obtain ⟨taken, same, described⟩ := Pattern.exists_of_matchStart? matched
    obtain ⟨inside, isInside, rfl⟩ := describes_enclosed described
    have insideMatches := Pattern.matchesAll_iff.mpr isInside
    simp only [List.cons_append, List.append_assoc, List.cons.injEq, true_and, List.nil_append]
      at same
    obtain ⟨rfl, rfl⟩ := Text.eq_of_append_cons_eq noSeparator (isWord _ insideMatches) same
    exact ⟨insideMatches, rfl⟩
  split
  · next isMatched =>
      have described : (enclosed word).Describes (' ' :: (text ++ [' '])) :=
        ⟨[' '], _, Pattern.describes_char.mpr rfl,
          ⟨text, [' '], Pattern.matchesAll_iff.mp isMatched, Pattern.describes_char.mpr rfl, rfl⟩,
          rfl⟩
      obtain ⟨left, matched⟩ := Pattern.exists_matchStart? described rest
      simp only [List.cons_append, List.append_assoc, List.nil_append] at matched
      rw [matched, (onlyText matched).2]
  · next notMatched =>
      exact Option.eq_none_iff_forall_ne_some.mpr fun left matched =>
        notMatched (onlyText matched).1

/-- At a separator the scan hits the word behind it with the first rule that matches the word, by
induction on the rules.
-/
theorem matchAt_scanner {rules : WordRules} (matchWords : rules.MatchWords) {text : Text}
    (noSeparator : ' ' ∉ text) (position : Nat) (rest : Text)
    : rules.scanner.matchAt position (' ' :: (text ++ ' ' :: rest))
      = (rules.removal? text).map fun removal =>
          ⟨⟨position, position + 1 + text.size + 1⟩, removal⟩ := by
  induction rules with
  | nil => rfl
  | cons rule others ih =>
      obtain ⟨isWord, areWords⟩ := List.forall_mem_cons.mp matchWords
      have matchedLater := ih areWords
      unfold matchAt WordRules.removal? at matchedLater ⊢
      rw [WordRules.scanner, List.map_cons, List.findSome?_cons, List.find?_cons]
      dsimp only
      rw [matchStart?_enclosed isWord noSeparator]
      cases rule.1.matchesAll text with
      | true =>
          simp only [if_true, Option.map_some, Text.size_append, Text.size_cons,
            Layout.utf8Size_separator]
          congr 3
          omega
      | false => exact matchedLater

/-- A search passes what comes before the next separator. -/
theorem find?_append {scanner : Scanner} (isEnclosed : scanner.IsEnclosed) {text : Text}
    (noSeparator : ' ' ∉ text) (position : Nat) (rest : Text)
    : scanner.find? position (text ++ rest) = scanner.find? (position + text.size) rest := by
  induction text generalizing position with
  | nil => rfl
  | cons c more ih =>
      obtain ⟨notHere, notLater⟩ := List.ne_and_not_mem_of_not_mem_cons noSeparator
      have nothing : scanner.matchAt position (c :: (more ++ rest)) = none := by
        apply Option.eq_none_iff_forall_ne_some.mpr
        intro hit matched
        obtain ⟨inside, left, same, -⟩ := exists_of_matchAt isEnclosed matched
        exact notHere (List.cons.inj same).1.symm
      simp only [List.cons_append, find?, nothing]
      rw [ih notLater, Text.size_cons, Nat.add_assoc]

theorem exists_lineOf (texts : List Text) : ∃ rest, Layout.lineOf texts = ' ' :: rest := by
  cases texts <;> exact ⟨_, rfl⟩

theorem lineOf_ne_nil (texts : List Text) : Layout.lineOf texts ≠ [] := by
  cases texts <;> simp [Layout.lineOf]

/-- A line has a byte for each word at least, and one more. -/
theorem length_lt_size_lineOf (texts : List Text) : texts.length < (Layout.lineOf texts).size := by
  induction texts with
  | nil => exact Nat.one_pos
  | cons text rest ih =>
      simp only [Layout.lineOf, List.cons_append, Text.size_cons, Layout.utf8Size_separator,
        Text.size_append, List.length_cons]
      omega

/-- A search of a line passes its first word unless a rule matches the word. -/
theorem find?_lineOf_cons {rules : WordRules} (matchWords : rules.MatchWords) {text : Text}
    (noSeparator : ' ' ∉ text) (position : Nat) (rest : List Text)
    : rules.scanner.find? position (Layout.lineOf (text :: rest))
      = match rules.removal? text with
        | some removal => some ⟨⟨position, position + 1 + text.size + 1⟩, removal⟩
        | none => rules.scanner.find? (position + 1 + text.size) (Layout.lineOf rest) := by
  obtain ⟨line, isLine⟩ := exists_lineOf rest
  rw [Layout.lineOf, List.cons_append, find?, isLine, matchAt_scanner matchWords noSeparator]
  cases rules.removal? text with
  | some removal => rfl
  | none => exact find?_append rules.isEnclosed_scanner noSeparator _ _

/-- A line without words has no hits. -/
theorem find?_lineOf_nil {scanner : Scanner} (isEnclosed : scanner.IsEnclosed) (position : Nat)
    : scanner.find? position (Layout.lineOf []) = none := by
  apply Option.eq_none_iff_forall_ne_some.mpr
  intro hit found
  obtain ⟨skipped, inside, rest, same, -⟩ := exists_of_find? isEnclosed found
  have := congrArg List.length same
  simp [Layout.lineOf] at this
  omega

/-- From the separator in front of a word, a call finds the word if a rule matches it, and else what it
finds from the separator behind the word.
-/
theorem next_lineOf_cons {rules : WordRules} (matchWords : rules.MatchWords) {text : Text}
    (noSeparator : ' ' ∉ text) (front : Text) (rest : List Text)
    : let line := front ++ Layout.lineOf (text :: rest)
      let behind := front.size + 1 + text.size
      rules.scanner.next line front.size
        = match rules.removal? text with
          | some removal => .hit ⟨⟨front.size, behind + 1⟩, removal⟩ behind
          | none => rules.scanner.next line behind := by
  intro line behind
  have isBehind : (front ++ ' ' :: text).size = behind := by
    simp only [behind, Text.size_append, Text.size_cons, Layout.utf8Size_separator]
    omega
  have isLine : line = (front ++ ' ' :: text) ++ Layout.lineOf rest := by
    simp [line, Layout.lineOf]
  have fromFront := next_append_size rules.scanner front (lineOf_ne_nil (text :: rest))
  have fromBehind := next_append_size rules.scanner (front ++ ' ' :: text) (lineOf_ne_nil rest)
  rw [find?_lineOf_cons matchWords noSeparator] at fromFront
  rw [← isLine, isBehind] at fromBehind
  cases removed : rules.removal? text with
  | some removal => simpa [removed] using fromFront
  | none => simpa only [removed, fromBehind] using fromFront

/-- A scan depends on its first call, not on where it is made. -/
theorem scanFrom_congr {scanner : Scanner} {line : Text} {cursor other : Nat}
    (same : scanner.next line cursor = scanner.next line other) (calls : Nat)
    : scanner.scanFrom line calls cursor = scanner.scanFrom line calls other := by
  cases calls with
  | zero => rfl
  | succ calls => rw [scanFrom, scanFrom, same]

/-- A scan of the rest of a line hits the words that rules match, and comes to the end. Every call
leads to the separator behind a word, from where the scan sees a line of the words that are left,
by induction on these.
-/
theorem scanFrom_lineOf {rules : WordRules} (matchWords : rules.MatchWords) {texts : List Text}
    (areWords : ∀ text ∈ texts, ' ' ∉ text) {calls : Nat} (enough : texts.length < calls)
    (front : Text)
    : rules.scanner.scanFrom (front ++ Layout.lineOf texts) calls front.size
      = { hits := rules.wordHits front.size texts } := by
  induction texts generalizing front calls with
  | nil =>
      obtain ⟨calls, rfl⟩ := Nat.exists_eq_succ_of_ne_zero (Nat.ne_of_gt enough)
      rw [scanFrom, next_append_size _ _ (lineOf_ne_nil []),
        find?_lineOf_nil rules.isEnclosed_scanner]
      rfl
  | cons text rest ih =>
      obtain ⟨noSeparator, othersAreWords⟩ := List.forall_mem_cons.mp areWords
      have line
          : (front ++ ' ' :: text) ++ Layout.lineOf rest
            = front ++ Layout.lineOf (text :: rest) := by
        simp [Layout.lineOf]
      have behind : (front ++ ' ' :: text).size = front.size + 1 + text.size := by
        rw [Text.size_append, Text.size_cons, Layout.utf8Size_separator, Nat.add_assoc]
      have first := next_lineOf_cons matchWords noSeparator front rest
      unfold WordRules.wordHits
      cases removed : rules.removal? text with
      | some removal =>
          obtain ⟨calls, rfl⟩ := Nat.exists_eq_succ_of_ne_zero (Nat.ne_zero_of_lt enough)
          have later := ih othersAreWords (Nat.lt_of_succ_lt_succ enough) (front ++ ' ' :: text)
          rw [removed] at first
          rw [line, behind] at later
          simp only [scanFrom, first, later]
      | none =>
          have later := ih othersAreWords (Nat.lt_of_succ_lt enough) (front ++ ' ' :: text)
          rw [removed] at first
          rw [line, behind] at later
          rw [scanFrom_congr first, later]

/-- A scan of words with rules that match words hits these, and comes to its end. -/
theorem scan_lineOf {rules : WordRules} (matchWords : rules.MatchWords) {texts : List Text}
    (areWords : ∀ text ∈ texts, ' ' ∉ text)
    : rules.scanner.scan (Layout.lineOf texts) = { hits := rules.wordHits 0 texts } :=
  scanFrom_lineOf matchWords areWords (Nat.lt_succ_of_lt (length_lt_size_lineOf texts)) []

end Scanner

-----------------------------------------------------------------------------------------
-- The marks of words
-----------------------------------------------------------------------------------------

namespace WordRules

variable {rules : WordRules}

/-- The hits of some words do not depend on the words behind them, which begin where the line of the
former ends.
-/
theorem wordHits_append {left : List Text} {width : Nat}
    (isWidth : (Layout.lineOf left).size = width + 1) (position : Nat) (right : List Text)
    : rules.wordHits position (left ++ right)
      = rules.wordHits position left ++ rules.wordHits (position + width) right := by
  induction left generalizing position width with
  | nil =>
      simp only [Layout.lineOf, Text.size_cons, Text.size_nil, Layout.utf8Size_separator] at isWidth
      obtain rfl : width = 0 := by omega
      rfl
  | cons text rest ih =>
      simp only [Layout.lineOf, List.cons_append, Text.size_cons, Text.size_append,
        Layout.utf8Size_separator] at isWidth
      have linePositive := Nat.zero_lt_of_lt (Scanner.length_lt_size_lineOf rest)
      have restWidth : (Layout.lineOf rest).size = width - 1 - text.size + 1 := by omega
      have later := ih restWidth (position + 1 + text.size)
      have place : position + 1 + text.size + (width - 1 - text.size) = position + width := by omega
      rw [place] at later
      simp only [List.cons_append, wordHits, later]
      cases rules.removal? text <;> rfl

/-- A hit of some words spans one of them with its separators, so it is never empty. -/
theorem bounds_of_mem_wordHits {texts : List Text} {position : Nat} {hit : Hit}
    (member : hit ∈ rules.wordHits position texts)
    : position ≤ hit.span.start
      ∧ hit.span.start < hit.span.stop - 1
      ∧ hit.span.stop ≤ position + (Layout.lineOf texts).size := by
  induction texts generalizing position with
  | nil => simp [wordHits] at member
  | cons text rest ih =>
      simp only [Layout.lineOf, List.cons_append, Text.size_cons, Text.size_append,
        Layout.utf8Size_separator]
      have linePositive := Nat.zero_lt_of_lt (Scanner.length_lt_size_lineOf rest)
      have ofLater (laterMember : hit ∈ rules.wordHits (position + 1 + text.size) rest)
          : position ≤ hit.span.start
            ∧ hit.span.start < hit.span.stop - 1
            ∧ hit.span.stop ≤ position + (1 + (text.size + (Layout.lineOf rest).size)) := by
        have := ih laterMember
        omega
      unfold wordHits at member
      split at member
      · rcases List.mem_cons.mp member with rfl | laterMember
        · dsimp only
          omega
        · exact ofLater laterMember
      · exact ofLater member

/-- Hits of words remove what the rules that match these remove. -/
theorem exists_mem_wordHits {texts : List Text} {position : Nat} {removal : Removal}
    : (∃ hit ∈ rules.wordHits position texts, hit.removal = removal)
      ↔ ∃ text ∈ texts, rules.removal? text = some removal := by
  induction texts generalizing position with
  | nil => simp [wordHits]
  | cons text rest ih =>
      have later := @ih (position + 1 + text.size)
      unfold wordHits
      cases isRemoval : rules.removal? text <;> simp [isRemoval, later]

section Cutting

variable {cut : Text → List Text} (fills : ∀ text, (Layout.lineOf (cut text)).size = text.size + 2)
include fills

/-- If texts are cut without change to the line, then each of them has the hits of what it is cut into,
from the separator in front of it on, by induction on the texts.
-/
theorem mem_wordHits_flatMap {position : Nat} {texts : List Text} {hit : Hit}
    : hit ∈ rules.wordHits position (texts.flatMap cut)
      ↔ ∃ (index : Nat) (text : Text) (start : Nat),
          texts[index]? = some text
          ∧ (Layout.separatorsOf position texts)[index]? = some start
          ∧ hit ∈ rules.wordHits start (cut text) := by
  induction texts generalizing position with
  | nil => simp [wordHits]
  | cons text rest ih =>
      have isHead
          : (∃ (first : Text) (start : Nat),
              (text :: rest)[0]? = some first
              ∧ (Layout.separatorsOf position (text :: rest))[0]? = some start
              ∧ hit ∈ rules.wordHits start (cut first))
            ↔ hit ∈ rules.wordHits position (cut text) := by
        simp [Layout.separatorsOf]
      have behind : position + (text.size + 1) = position + 1 + text.size := by omega
      rw [← Nat.or_exists_add_one, isHead, List.flatMap_cons, wordHits_append (fills text),
        List.mem_append, behind, ih]
      rfl

/-- If texts are cut without change to the line, then the hits answer for each text what the rules that
match something it is cut into remove.
-/
theorem answeredBy_wordHits (texts : List Text)
    : (Layout.ofWords texts).AnsweredBy
        (fun index removal =>
          ∃ text, texts[index]? = some text
            ∧ ∃ part ∈ cut text, rules.removal? part = some removal)
        (rules.wordHits 0 (texts.flatMap cut)) := by
  have isHitOf {index start : Nat} {text : Text} {hit : Hit} (isText : texts[index]? = some text)
      (isStart : (Layout.separatorsOf 0 texts)[index]? = some start)
      (member : hit ∈ rules.wordHits start (cut text))
      : (Layout.ofWords texts).IsHitOf index hit := by
    obtain ⟨fromStart, notEmpty, upToStop⟩ := bounds_of_mem_wordHits member
    rw [fills text] at upToStop
    exact Layout.isHitOf_of_between isStart (Layout.getElem?_separatorsOf_succ isText isStart)
      fromStart notEmpty (by omega)
  constructor
  · intro hit member
    obtain ⟨index, text, start, isText, isStart, member⟩ := (mem_wordHits_flatMap fills).mp member
    exact ⟨index, ⟨text, isText, exists_mem_wordHits.mp ⟨hit, member, rfl⟩⟩,
      isHitOf isText isStart member⟩
  · rintro index removal ⟨text, isText, asked⟩
    obtain ⟨within, -⟩ := List.getElem?_eq_some_iff.mp isText
    have isStart := List.getElem?_eq_getElem (l := Layout.separatorsOf 0 texts) (i := index)
      (by rw [Layout.length_separatorsOf]; omega)
    obtain ⟨hit, member, isRemoval⟩ := exists_mem_wordHits.mpr asked
    exact ⟨hit, (mem_wordHits_flatMap fills).mpr ⟨index, text, _, isText, isStart, member⟩,
      isRemoval, isHitOf isText isStart member⟩

end Cutting

/-- A mark is left unless a word next to its separator says otherwise. -/
theorem isRequired_eq_false_iff {texts : List Text} {separator : Nat}
    (within : separator ≤ texts.length)
    : ((Layout.ofWords texts).markAll (rules.wordHits 0 texts)).isRequired separator = false
      ↔ rules.RemovesLeft texts separator
        ∨ ∃ index, separator = index + 1 ∧ rules.RemovesRight texts index := by
  have fills (text : Text) : (Layout.lineOf [text]).size = text.size + 2 := by
    simp only [Layout.lineOf, List.cons_append, Text.size_cons, Text.size_append,
      Layout.utf8Size_separator, Text.size_nil]
    omega
  have answers : (Layout.ofWords texts).AnsweredBy _ (rules.wordHits 0 (texts.flatMap ([·]))) :=
    answeredBy_wordHits fills texts
  have isRequired := answers.isRequired_eq_false_iff within
  simpa [RemovesLeft, RemovesRight, removalAt, Option.bind_eq_some_iff] using isRequired

/-- Rules that never ask for a separator match words. -/
theorem matchWords_of_avoids (avoids : rules.all (·.1.avoids ' ') = true) : rules.MatchWords :=
  fun rule member _ => Pattern.not_mem_of_avoids (List.all_eq_true.mp avoids rule member)

end WordRules

-----------------------------------------------------------------------------------------
-- Rules as they are written
-----------------------------------------------------------------------------------------

namespace SpacingRule

/-- The pattern that a rule writes down. -/
def word? (rule : SpacingRule) : Option Pattern :=
  Pattern.parse? rule.pattern.toList

/-- Whether a rule's pattern can be read and only matches texts without separators. -/
def IsWordRule (rule : SpacingRule) : Prop :=
  ∃ word, rule.word? = some word ∧ ∀ text, word.matchesAll text = true → ' ' ∉ text

theorem IsWordRule.isSome_word? {rule : SpacingRule} (isWordRule : rule.IsWordRule)
    : rule.word?.isSome := by
  obtain ⟨word, isWord, -⟩ := isWordRule
  rw [isWord]
  rfl

/-- Whether a rule matches a text from its start to its end. -/
def matchesAll (rule : SpacingRule) (text : Text) : Bool :=
  rule.word?.any (·.matchesAll text)

/-- What the first rule that matches a text removes. -/
def removal? (rules : List SpacingRule) (text : Text) : Option Removal :=
  (rules.find? (·.matchesAll text)).map (·.removal)

/-- The patterns that rules write down, as far as they can be read. -/
def words (rules : List SpacingRule) : WordRules :=
  rules.filterMap fun rule => rule.word?.map fun word => (word, rule.removal)

theorem words_cons {rule : SpacingRule} {word : Pattern} (isWord : rule.word? = some word)
    (others : List SpacingRule)
    : words (rule :: others) = (word, rule.removal) :: words others := by
  rw [words, List.filterMap_cons_some (by rw [isWord]; rfl), words]

/-- What is written down removes the same as the patterns, by induction on the rules. -/
theorem removal?_words (rules : List SpacingRule) (text : Text)
    : (words rules).removal? text = removal? rules text := by
  induction rules with
  | nil => rfl
  | cons rule others ih =>
      unfold WordRules.removal? removal? at ih ⊢
      rw [List.find?_cons, matchesAll]
      cases isWord : rule.word? with
      | none => simpa [words, isWord] using ih
      | some word =>
          rw [words_cons isWord, List.find?_cons, Option.any_some]
          cases word.matchesAll text with
          | true => rfl
          | false => exact ih

/-- Rules that match words write down patterns that match words. -/
theorem matchWords_words {rules : List SpacingRule} (areWordRules : ∀ rule ∈ rules, rule.IsWordRule)
    : (words rules).MatchWords := by
  intro entry member
  obtain ⟨rule, isRule, isEntry⟩ := List.mem_filterMap.mp member
  obtain ⟨word, isWord, rfl⟩ := Option.map_eq_some_iff.mp isEntry
  obtain ⟨same, isSame, matchesWords⟩ := areWordRules rule isRule
  obtain rfl := Option.some.inj (isWord.symm.trans isSame)
  exact matchesWords

/-- The rules of every language match words. -/
theorem isWordRule_of_mem_rules (set : RuleSet) : ∀ rule ∈ set.rules, rule.IsWordRule := by
  have avoids : set.rules.all fun rule => rule.word?.any (·.avoids ' ') := by
    cases set <;> decide +kernel
  intro rule member
  obtain ⟨word, isWord, avoids⟩ := (Option.any_eq_true _ _).mp (List.all_eq_true.mp avoids rule member)
  exact ⟨word, isWord, fun _ => Pattern.not_mem_of_avoids avoids⟩

end SpacingRule

namespace Scanner

/-- What a rule writes down is read as the same pattern when it stands between separators. -/
theorem parse?_enclosedText {written : String} {word : Pattern}
    (isRead : Pattern.parse? written.toList = some word)
    : Pattern.parse? (enclosedText written) = some (enclosed word) := by
  have alone
      : Pattern.readGroup (written.toList.length + 1) {} {} written.toList = some (word, []) := by
    unfold Pattern.parse? at isRead
    split at isRead
    · next found => rwa [← Option.some.inj isRead]
    · contradiction
  have inGroup
      : Pattern.readGroup (written.toList.length + 5) {} {} (written.toList ++ Pattern.groupEnd)
        = some (word, Pattern.groupEnd) :=
    Pattern.readGroup_append (by omega) alone
  have text
      : enclosedText written
        = ' ' :: '(' :: '?' :: ':' :: (written.toList ++ Pattern.groupEnd) := by
    simp [enclosedText, Pattern.groupEnd]
  have length : (enclosedText written).length + 1 = written.toList.length + 7 := by
    simp [text, Pattern.groupEnd]
  have enclosedRead
      : Pattern.readGroup (written.toList.length + 7) {} {} (enclosedText written)
        = some (enclosed word, []) := by
    rw [text]
    -- The separator and the opening compute; only the body of the group does not.
    exact Option.bind_eq_some_iff.mpr ⟨_, inGroup, rfl⟩
  rw [Pattern.parse?, length, enclosedRead]

/-- Rules that are patterns by themselves compile to these patterns between separators. -/
theorem compileFrom_of_isSome_word? {rules : List SpacingRule}
    (areReadable : ∀ rule ∈ rules, rule.word?.isSome) (index : Nat)
    : compileFrom index rules = .ok (SpacingRule.words rules).scanner := by
  induction rules generalizing index with
  | nil => rfl
  | cons rule rest ih =>
      obtain ⟨isReadable, areOthers⟩ := List.forall_mem_cons.mp areReadable
      obtain ⟨word, isWord⟩ := Option.isSome_iff_exists.mp isReadable
      simp only [compileFrom, parse?_enclosedText isWord, ih areOthers,
        SpacingRule.words_cons isWord]
      rfl

/-- The scanner of a rule set is that of the words that its rules write down. -/
theorem scanner_words_rules (set : RuleSet)
    : (SpacingRule.words set.rules).scanner = set.scanner := by
  have areReadable : ∀ rule ∈ set.rules, rule.word?.isSome :=
    fun rule member => (SpacingRule.isWordRule_of_mem_rules set rule member).isSome_word?
  exact Except.ok.inj
    ((compileFrom_of_isSome_word? areReadable 0).symm.trans (RuleSet.compile_rules set))

end Scanner

-----------------------------------------------------------------------------------------
-- Annotating
-----------------------------------------------------------------------------------------

namespace Annotator

/-- With patterns that match words, the scan hits each word that one of them matches, and the pass
marks each word by what the first patterns that match it and its neighbours remove. These are the
patterns of all rules that write them down, and the rules of every language write down such patterns.
-/
theorem annotate_by_word {rules : WordRules} {sentence : Sentence} (matchWords : rules.MatchWords)
    (areWords : ∀ word ∈ sentence.words, ' ' ∉ word.text)
    : let texts := sentence.words.map (·.text)
      rules.scanner.scan (Layout.ofWords texts).text = { hits := rules.wordHits 0 texts }
      ∧ (∃ marked,
        (ofScanner rules.scanner).annotate sentence = .ok { sentence with words := marked }
        ∧ marked.length = sentence.words.length
        ∧ ∀ index word,
            sentence.words[index]? = some word
            → ∃ left right,
                marked[index]? = some { word with leftRequired := left, rightRequired := right }
                ∧ (left = false
                  ↔ rules.RemovesLeft texts index
                    ∨ ∃ before, index = before + 1 ∧ rules.RemovesRight texts before)
                ∧ (right = false
                  ↔ rules.RemovesRight texts index ∨ rules.RemovesLeft texts (index + 1)))
      ∧ (∀ written : List SpacingRule,
        (∀ rule ∈ written, rule.word?.isSome)
        → SpacingRule.words written = rules
        → Scanner.compile written = .ok rules.scanner
          ∧ ∀ text, SpacingRule.removal? written text = rules.removal? text)
      ∧ ∀ set : RuleSet,
          (∀ rule ∈ set.rules, rule.IsWordRule)
          ∧ (SpacingRule.words set.rules).MatchWords
          ∧ (SpacingRule.words set.rules).scanner = set.scanner := by
  intro texts
  have areTexts : ∀ text ∈ texts, ' ' ∉ text := List.forall_mem_map.mpr areWords
  have scanned : rules.scanner.scan (Layout.ofWords texts).text = { hits := rules.wordHits 0 texts } :=
    Scanner.scan_lineOf matchWords areTexts
  let layout := (Layout.ofWords texts).markAll (rules.wordHits 0 texts)
  have marked
      : (ofScanner rules.scanner).markWords sentence.words
        = .ok (layout.applyRight (layout.applyLeft sentence.words)) := by
    simp only [markWords, ofScanner, scanned, texts]
    rfl
  refine ⟨scanned, ⟨_, by rw [annotate, marked]; rfl,
    by simp [Layout.applyRight, Layout.applyLeft], fun index word isWord => ?_⟩,
    fun written areReadable isWritten => ?_, fun set => ?_⟩
  · obtain ⟨within, -⟩ := List.getElem?_eq_some_iff.mp isWord
    have inFront : index ≤ texts.length := by simpa [texts] using Nat.le_of_lt within
    have behind : index + 1 ≤ texts.length := by simpa [texts] using Nat.succ_le_of_lt within
    refine ⟨layout.isRequired index, layout.isRequired (index + 1), ?_,
      WordRules.isRequired_eq_false_iff inFront, ?_⟩
    · simp [Layout.applyRight, Layout.applyLeft, isWord]
    · simp only [layout, WordRules.isRequired_eq_false_iff behind, Nat.add_right_cancel_iff,
        exists_eq_left', or_comm]
  · subst isWritten
    exact ⟨Scanner.compileFrom_of_isSome_word? areReadable 0,
      fun text => (SpacingRule.removal?_words written text).symm⟩
  · have areWordRules := SpacingRule.isWordRule_of_mem_rules set
    exact ⟨areWordRules, SpacingRule.matchWords_words areWordRules,
      Scanner.scanner_words_rules set⟩

/-- A word without text has a rule here. It takes the space off the word behind it, and a comma
takes the other one.
-/
theorem annotate_by_word_of_empty_word
    : let written : List SpacingRule := ⟨"", .both⟩ :: RuleSet.french.rules
      let rules : WordRules := (.empty, .both) :: SpacingRule.words RuleSet.french.rules
      let word (text : String) : Word := { text := text.toList, source := [] }
      let sentence : Sentence := { words := ["l'", "", "été", ",", "?"].map word }
      rules.MatchWords
      ∧ (∀ word ∈ sentence.words, ' ' ∉ word.text)
      ∧ Scanner.compile written = .ok rules.scanner
      ∧ rules.scanner.scan (Layout.ofWords (sentence.words.map (·.text))).text
        = { hits := [⟨⟨0, 4⟩, .right⟩, ⟨⟨3, 5⟩, .both⟩, ⟨⟨10, 13⟩, .left⟩] }
      ∧ ∃ marked,
          (ofScanner rules.scanner).annotate sentence = .ok { sentence with words := marked }
          ∧ marked[2]?
            = some { word "été" with leftRequired := false, rightRequired := false } := by
  intro written rules word sentence
  have matchWords : rules.MatchWords := WordRules.matchWords_of_avoids (by decide +kernel)
  have areWords : ∀ word ∈ sentence.words, ' ' ∉ word.text := by decide
  obtain ⟨scanned, ⟨marked, annotated, -, marks⟩, asWritten, -⟩ :=
    annotate_by_word matchWords areWords
  have areReadable : ∀ rule ∈ written, rule.word?.isSome := List.all_eq_true.mp (by decide +kernel)
  obtain ⟨compiled, -⟩ := asWritten written areReadable rfl
  have hits
      : rules.wordHits 0 (sentence.words.map (·.text))
        = [⟨⟨0, 4⟩, .right⟩, ⟨⟨3, 5⟩, .both⟩, ⟨⟨10, 13⟩, .left⟩] := by
    decide +kernel
  obtain ⟨left, right, isMarked, leftOf, rightOf⟩ := marks 2 (word "été") rfl
  obtain rfl : left = false :=
    leftOf.mpr (.inr ⟨1, rfl, .both, by decide +kernel, rfl⟩)
  obtain rfl : right = false :=
    rightOf.mpr (.inr ⟨.left, by decide +kernel, rfl⟩)
  exact ⟨matchWords, areWords, compiled, by rw [scanned, hits], marked, annotated, isMarked⟩

end Annotator

end TaggedText
