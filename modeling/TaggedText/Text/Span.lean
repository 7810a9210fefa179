import TaggedText.Text.Basic

/-!
Spans of byte positions. A span runs from its start up to its stop, which it does not include;
one whose stop does not come after its start is empty.
-/

namespace TaggedText

/-- The byte positions from a start up to, and without, a stop. -/
structure Span where
  start : Nat
  stop : Nat
deriving DecidableEq, Repr

namespace Span

/-- The number of bytes of a span. -/
def length (span : Span) : Nat :=
  span.stop - span.start

/-- Whether a span holds no position. -/
def isEmpty (span : Span) : Bool :=
  span.stop ≤ span.start

/-- Whether two spans have a position in common. -/
def meets (span other : Span) : Bool :=
  !span.isEmpty && !other.isEmpty && span.start < other.stop && other.start < span.stop

/-- What is left of a span outside another one, as non-empty pieces in order. -/
def minus (span taken : Span) : List Span :=
  if span.meets taken then
    [⟨span.start, taken.start⟩, ⟨taken.stop, span.stop⟩].filter (!·.isEmpty)
  else [span]

end Span

end TaggedText
