/-!
Character classes as ascending ranges of code points. A class is looked up from its lowest range
upwards, and the search stops at the first range that lies above the character.
-/

namespace TaggedText.Text

/-- The first and the last code point of a range. -/
abbrev CodeRange := Nat × Nat

/-- Whether one of ascending ranges holds a code point. -/
def CodeRange.covers : List CodeRange → Nat → Bool
  | [], _ => false
  | range :: rest, code =>
      if code < range.1 then false else code ≤ range.2 || covers rest code

end TaggedText.Text
