import TaggedText.Pattern.Parser
import TaggedText.Spacing.Layout

/-!
Spacing rules. A rule is the pattern of a word and the separators that such a word removes, and
languages choose between three sets of rules.
-/

namespace TaggedText

/-- A rule with its pattern as it is written. -/
structure SpacingRule where
  pattern : String
  removal : Removal
deriving DecidableEq, Repr

/-- The conventions that the built-in rules tell apart. French ones keep the spaces in front of
high punctuation and inside quotation marks, and both others attach elided articles.
-/
inductive RuleSet where
  | common
  | romance
  | french
deriving DecidableEq, Repr

namespace RuleSet

/-- The rule set of a language code, chosen by its part in front of a hyphen or underscore. -/
def ofLanguage (language : String) : RuleSet :=
  let primary := language.toList.takeWhile fun c => c != '-' && c != '_'
  match String.ofList (primary.map Char.toLower) with
  | "fr" => french
  | "it" | "ca" | "pt" | "oc" => romance
  | _ => common

/-- Closing punctuation, which stands next to the word before it. -/
def closing : RuleSet → SpacingRule
  | french => ⟨"[.,%)\\]\x7d\\u\x7b2026\x7d]+", .left⟩
  | _ => ⟨"[.,;:!?%)\\]\x7d\\u\x7bBB\x7d\\u\x7b201D\x7d\\u\x7b2026\x7d]+", .left⟩

/-- Opening punctuation and currency signs, which stand next to the word behind them. -/
def opening : RuleSet → SpacingRule
  | french => ⟨"[(\\[\x7b\\u\x7b201C\x7d\\u\x7bBF\x7d\\u\x7bA1\x7d]", .right⟩
  | _ => {
      pattern :=
        "[(\\[\x7b\\u\x7bAB\x7d\\u\x7b201C\x7d\\u\x7bBF\x7d"
          ++ "\\u\x7bA1\x7d$\\u\x7b20AC\x7d\\u\x7bA3\x7d#]"
      removal := .right
    }

/-- Parts of words around an apostrophe. -/
def apostrophe : RuleSet → SpacingRule
  | common => ⟨"(?i:['\\u\x7b2019\x7d](?:s|re|ve|ll|d|m|t)|n['\\u\x7b2019\x7d]t)", .left⟩
  | _ => ⟨"(?i:(?:[cdjlmnst]|qu|un|all|dell|dall|nell|sull)['\\u\x7b2019\x7d])", .right⟩

/-- Signs that stand between words without spaces. -/
def joining : SpacingRule :=
  ⟨"[/@]", .both⟩

/-- The rules of a rule set. -/
def rules (set : RuleSet) : List SpacingRule :=
  [set.closing, set.opening, set.apostrophe, joining]

end RuleSet

end TaggedText
