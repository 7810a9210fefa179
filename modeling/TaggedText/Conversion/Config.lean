/-!
The configuration of a converter.
-/

namespace TaggedText

/-- The language of the spacing rules, which passes run, and how many drafts are kept. -/
structure Config where
  language : String := "en"
  markup : Bool := true
  entities : Bool := true
  blanks : Bool := true
  words : Bool := true
  poolLimit : Nat := 8
deriving DecidableEq, Repr

end TaggedText
