import TaggedText.Proofs.Spacing.WordRules

/-!
Words that hold spaces themselves. The scan sees one line, in which a space inside of a word is a
separator like any other, so a rule meets each part of a word between its spaces. What a part asks for
is taken off the separator in front of the whole word or behind it. So a word loses its spaces by any
part of it that a rule matches, though no rule matches the word.
-/

namespace TaggedText

/-- The parts of a text between its spaces. -/
def Text.parts (text : Text) : List Text :=
  text.splitOn ' '

namespace Text

theorem parts_of_not_mem {text : Text} (noSpace : ' ' ∉ text) : text.parts = [text] :=
  List.splitOn_eq_singleton noSpace

theorem parts_space (rest : Text) : Text.parts (' ' :: rest) = [] :: rest.parts := by
  simp [parts, List.splitOn_cons_eq_if_modifyHead]

/-- Any other character belongs to the first part. -/
theorem exists_parts_cons {c : Char} (notSpace : c ≠ ' ') (rest : Text)
    : ∃ first others,
        rest.parts = first :: others ∧ Text.parts (c :: rest) = (c :: first) :: others := by
  obtain ⟨first, others, isFirst⟩ := List.exists_cons_of_ne_nil (List.splitOn_ne_nil ' ' rest)
  refine ⟨first, others, isFirst, ?_⟩
  simp [parts, List.splitOn_cons_eq_if_modifyHead, notSpace, isFirst]

/-- No part holds a space, by induction on the text. -/
theorem not_mem_of_mem_parts {text part : Text} (member : part ∈ text.parts) : ' ' ∉ part := by
  induction text generalizing part with
  | nil =>
      obtain rfl : part = [] := by simpa [parts] using member
      exact List.not_mem_nil
  | cons c rest ih =>
      by_cases isSpace : c = ' '
      · subst isSpace
        rw [parts_space] at member
        rcases List.mem_cons.mp member with rfl | later
        · exact List.not_mem_nil
        · exact ih later
      · obtain ⟨first, others, isFirst, areParts⟩ := exists_parts_cons isSpace rest
        rw [isFirst] at ih
        rw [areParts] at member
        rcases List.mem_cons.mp member with rfl | later
        · exact List.not_mem_cons_of_ne_of_not_mem (Ne.symm isSpace) (ih List.mem_cons_self)
        · exact ih (List.mem_cons_of_mem _ later)

end Text

namespace Layout

/-- The line of the parts of a text is the line of the text itself, by induction on the text. -/
theorem lineOf_parts_append (text : Text) (rest : List Text)
    : lineOf (text.parts ++ rest) = ' ' :: text ++ lineOf rest := by
  induction text with
  | nil => rfl
  | cons c more ih =>
      by_cases isSpace : c = ' '
      · subst isSpace
        rw [Text.parts_space, List.cons_append, lineOf, ih]
        rfl
      · obtain ⟨first, others, isFirst, areParts⟩ := Text.exists_parts_cons isSpace more
        rw [isFirst] at ih
        simp only [List.cons_append, lineOf, List.cons.injEq, true_and] at ih
        simp only [areParts, List.cons_append, lineOf, ih]

/-- A line looks the same if its words are taken apart at their spaces. -/
theorem lineOf_flatMap_parts (texts : List Text)
    : lineOf (texts.flatMap Text.parts) = lineOf texts := by
  induction texts with
  | nil => rfl
  | cons text rest ih => rw [List.flatMap_cons, lineOf_parts_append, ih, lineOf]

theorem size_lineOf_parts (text : Text) : (lineOf text.parts).size = text.size + 2 := by
  have line := lineOf_parts_append text []
  rw [List.append_nil] at line
  simp only [line, lineOf, List.cons_append, Text.size_cons, Text.size_append, utf8Size_separator,
    Text.size_nil]
  omega

end Layout

-----------------------------------------------------------------------------------------
-- Marks of words that hold spaces
-----------------------------------------------------------------------------------------

namespace SpacingRule

/-- Whether a removal is that of the first rule that matches some part of a text of a list. -/
def PartAsks (rules : List SpacingRule) (texts : List Text) (index : Nat) (removal : Removal) : Prop :=
  ∃ text, texts[index]? = some text ∧ ∃ part ∈ text.parts, removal? rules part = some removal

/-- Whether some part of a text of a list asks for a removal on one side. -/
def PartRemoves (rules : List SpacingRule) (removes : Removal → Bool) (texts : List Text)
    (index : Nat)
    : Prop :=
  ∃ removal, PartAsks rules texts index removal ∧ removes removal = true

/-- A text without spaces asks for what a rule that matches all of it removes. -/
theorem partAsks_iff_of_not_mem {rules : List SpacingRule} {texts : List Text} {index : Nat}
    {text : Text} (isText : texts[index]? = some text) (noSpace : ' ' ∉ text) (removal : Removal)
    : PartAsks rules texts index removal ↔ removal? rules text = some removal := by
  simp [PartAsks, isText, Text.parts_of_not_mem noSpace]

/-- A mark is left unless a part of a word next to its separator says otherwise. -/
theorem isRequired_eq_false_iff_of_parts {rules : List SpacingRule} {texts : List Text}
    {separator : Nat} (within : separator ≤ texts.length)
    : let hits := (words rules).wordHits 0 (texts.flatMap Text.parts)
      ((Layout.ofWords texts).markAll hits).isRequired separator = false
      ↔ PartRemoves rules Removal.removesLeft texts separator
        ∨ ∃ index, separator = index + 1 ∧ PartRemoves rules Removal.removesRight texts index := by
  have answers := (words rules).answeredBy_wordHits Layout.size_lineOf_parts texts
  simp only [removal?_words] at answers
  exact answers.isRequired_eq_false_iff within

end SpacingRule

namespace Annotator

/-- The scan of a line with the rules of a language hits the parts of words, and comes to its end. -/
theorem scan_ofWords (language : String) (texts : List Text)
    : let set := RuleSet.ofLanguage language
      set.scanner.scan (Layout.ofWords texts).text
        = { hits := (SpacingRule.words set.rules).wordHits 0 (texts.flatMap Text.parts) } := by
  intro set
  have matchWords := SpacingRule.matchWords_words (SpacingRule.isWordRule_of_mem_rules set)
  have isLine : (Layout.ofWords texts).text = Layout.lineOf (texts.flatMap Text.parts) :=
    (Layout.lineOf_flatMap_parts texts).symm
  have areParts : ∀ part ∈ texts.flatMap Text.parts, ' ' ∉ part := by
    intro part member
    obtain ⟨text, -, isPart⟩ := List.mem_flatMap.mp member
    exact Text.not_mem_of_mem_parts isPart
  rw [← Scanner.scanner_words_rules, isLine]
  exact Scanner.scan_lineOf matchWords areParts

/-- Whatever words a sentence has, the built-in rules mark each one by what the first rules that match
the parts of the word and of its neighbours remove. A word without spaces is met as a whole.
-/
theorem annotate_by_part (language : String) (sentence : Sentence)
    : let rules := (RuleSet.ofLanguage language).rules
      let texts := sentence.words.map (·.text)
      ∃ marked,
        (ofLanguage language).annotate sentence = .ok { sentence with words := marked }
        ∧ marked.length = sentence.words.length
        ∧ ∀ index word,
            sentence.words[index]? = some word
            → (∃ left right,
                marked[index]? = some { word with leftRequired := left, rightRequired := right }
                ∧ (left = false
                  ↔ SpacingRule.PartRemoves rules Removal.removesLeft texts index
                    ∨ ∃ before,
                        index = before + 1
                        ∧ SpacingRule.PartRemoves rules Removal.removesRight texts before)
                ∧ (right = false
                  ↔ SpacingRule.PartRemoves rules Removal.removesRight texts index
                    ∨ SpacingRule.PartRemoves rules Removal.removesLeft texts (index + 1)))
              ∧ (' ' ∉ word.text
                → ∀ removal,
                    SpacingRule.PartAsks rules texts index removal
                    ↔ SpacingRule.removal? rules word.text = some removal) := by
  intro rules texts
  have scanned := scan_ofWords language texts
  let hits := (SpacingRule.words rules).wordHits 0 (texts.flatMap Text.parts)
  let layout := (Layout.ofWords texts).markAll hits
  have marked
      : (ofLanguage language).markWords sentence.words
        = .ok (layout.applyRight (layout.applyLeft sentence.words)) := by
    simp only [markWords, ofLanguage, ofScanner, scanned, texts]
    rfl
  refine ⟨_, by rw [annotate, marked]; rfl, by simp [Layout.applyRight, Layout.applyLeft], ?_⟩
  intro index word isWord
  have isText : texts[index]? = some word.text := by simp [texts, isWord]
  obtain ⟨within, -⟩ := List.getElem?_eq_some_iff.mp isText
  have behind : index + 1 ≤ texts.length := within
  refine ⟨⟨layout.isRequired index, layout.isRequired (index + 1), ?_,
    SpacingRule.isRequired_eq_false_iff_of_parts (Nat.le_of_lt within), ?_⟩,
    SpacingRule.partAsks_iff_of_not_mem isText⟩
  · rw [Layout.getElem?_apply, isWord, Option.map_some]
  · simp only [layout, hits, SpacingRule.isRequired_eq_false_iff_of_parts behind,
      Nat.add_right_cancel_iff, exists_eq_left', or_comm]

/-- The comma inside of a word takes the space off in front of the word, though none of the words in
the sentence is matched by a rule.
-/
theorem annotate_inner_comma
    : let words := ["x", "a , b", "y"].map String.toList
      let sentence : Sentence := { words := words.map fun text => { text, source := [] } }
      (∀ text ∈ words, ∀ rule ∈ (RuleSet.ofLanguage "en").rules, rule.matchesAll text = false)
      ∧ ((ofLanguage "en").annotate sentence).toOption.map (·.words.map fun word =>
            (word.leftRequired, word.rightRequired))
          = some [(true, false), (false, true), (true, true)] := by
  decide +kernel

end Annotator

end TaggedText
