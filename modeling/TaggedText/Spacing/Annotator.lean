import TaggedText.Draft.Error
import TaggedText.Sentence.Basic
import TaggedText.Spacing.Scanner

/-!
The spacing pass over the words of a sentence. An annotator answers a line of words with the
hits of one scan from the beginning, and the pass takes the marks of the words from these.
-/

namespace TaggedText

/-- A way to scan lines of words. Every scan begins anew, whatever was scanned before. -/
structure Annotator where
  scan : Text → Scan

namespace Annotator

/-- Scans with rules. Some lines have no end for rules that get around their separators. -/
def ofScanner (scanner : Scanner) : Annotator where
  scan := scanner.scan

/-- The built-in annotator of a language. -/
def ofLanguage (language : String) : Annotator :=
  ofScanner (RuleSet.ofLanguage language).scanner

/-- Answers every line with the same scan. -/
def replay (scan : Scan) : Annotator where
  scan _ := scan

/-- Words with the marks that an annotator's scan of them leaves. -/
def markWords (annotator : Annotator) (words : List Word) : Except DraftError (List Word) :=
  let layout := Layout.ofWords (words.map (·.text))
  let scan := annotator.scan layout.text
  match scan.ending with
  | .missing => .error .unanswered
  | .failed => .error .scanFailed
  | .finished =>
      let layout := layout.markAll scan.hits
      .ok (layout.applyRight (layout.applyLeft words))

/-- The sentence with its words marked. -/
def annotate (annotator : Annotator) (sentence : Sentence) : Except DraftError Sentence :=
  (annotator.markWords sentence.words).map fun words => { sentence with words }

end Annotator

end TaggedText
