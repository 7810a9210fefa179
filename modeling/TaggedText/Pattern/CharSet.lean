import TaggedText.Text.Blank
import TaggedText.Text.CaseFold
import TaggedText.Text.Digit
import TaggedText.Text.WordChar

/-!
Sets of characters, as patterns name them: ranges, the digit, word and blank classes, and what
complement, union and indifference to case make of these.
-/

namespace TaggedText

/-- A description of a set of characters. -/
inductive CharSet where
  | nothing
  | range (first last : Char)
  | digit
  | word
  | blank
  | union (left right : CharSet)
  | complement (set : CharSet)
  | anyCase (set : CharSet)
deriving DecidableEq

namespace CharSet

/-- Whether a set holds a character. Indifference to case asks for some case variant of it. -/
def contains : CharSet → Char → Bool
  | nothing, _ => false
  | range first last, c => first ≤ c && c ≤ last
  | digit, c => Text.isDigit c
  | word, c => Text.isWordChar c
  | blank, c => Text.isBlank c
  | union left right, c => left.contains c || right.contains c
  | complement set, c => !set.contains c
  | anyCase set, c => (Text.caseVariants c).any fun code => set.contains (Char.ofNat code)

/-- The set of one character. -/
def single (c : Char) : CharSet :=
  range c c

/-- The set of all characters. -/
def anything : CharSet :=
  complement nothing

/-- The characters of both sets. -/
def inter (left right : CharSet) : CharSet :=
  complement (union (complement left) (complement right))

/-- The characters of the first set that the second lacks. -/
def diff (left right : CharSet) : CharSet :=
  complement (union (complement left) right)

/-- The characters of exactly one of two sets. -/
def symmDiff (left right : CharSet) : CharSet :=
  union (left.diff right) (right.diff left)

/-- The union of several sets, grouped to the left. -/
def unionAll : List CharSet → CharSet
  | [] => nothing
  | set :: rest => rest.foldl union set

/-- The set of the listed characters. -/
def ofList (cs : List Char) : CharSet :=
  unionAll (cs.map single)

end CharSet

end TaggedText
