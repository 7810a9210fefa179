/-!
What can go wrong while a sentence is built. Misuse and unsupported edits are the caller's
doing; defects are states that the draft itself should never reach.
-/

namespace TaggedText

/-- A state that building a sentence should never reach. -/
inductive Defect where
  | editPastEnd (stop size : Nat)
  | claimSplitsCharacter (start stop : Nat)
  | badGap (start stop : Nat)
  | missingMaker
deriving DecidableEq, Repr

namespace Defect

/-- The wording of a defect. -/
def message : Defect → String
  | editPastEnd stop size => s!"transformation end {stop} exceeds original length {size}"
  | claimSplitsCharacter start stop => s!"claimed range {start}..{stop} splits a character"
  | badGap start stop => s!"gap {start}..{stop} is not a valid range of the original text"
  | missingMaker => "resolved transformation has no token factory"

end Defect

/-- The reasons for which a draft refuses or fails. It gives no answer at all if it waits for the end of
a scan that has none.
-/
inductive DraftError where
  | inUse
  | notLoaded
  | spanOutOfBounds (start stop size : Nat)
  | notABoundary (position : Nat)
  | overlapsReplacement (start replacedUntil : Nat)
  | emptyInterior (start stop : Nat)
  | scanFailed
  | unanswered
  | internal (defect : Defect)
deriving DecidableEq, Repr

/-- Whose fault an error is. -/
inductive ErrorCategory where
  | misuse
  | unsupportedEdit
  | internal
deriving DecidableEq, Repr

namespace DraftError

/-- The wording of an error. -/
def message : DraftError → String
  | inUse => "this editor is already in use"
  | notLoaded => "no input string has been loaded into the builder"
  | spanOutOfBounds start stop size =>
      s!"span {start}..{stop} is out of bounds for working text of length {size}"
  | notABoundary position =>
      s!"position {position} is not on a character boundary of the working text"
  | overlapsReplacement start replacedUntil =>
      s!"edit at {start} starts before the end of a queued replacement ({replacedUntil})"
  | emptyInterior start stop =>
      s!"empty replacements are not supported in the middle of the sentence ({start}..{stop})"
  | scanFailed => "space annotator failed reading the annotated stream"
  | unanswered => "no answer: the scan of the annotated stream does not end"
  | internal defect => s!"internal invariant violated: {defect.message}"

/-- The category of an error. -/
def category : DraftError → ErrorCategory
  | inUse | notLoaded | spanOutOfBounds .. | notABoundary _ | overlapsReplacement .. =>
      .misuse
  | emptyInterior .. => .unsupportedEdit
  | scanFailed | unanswered | internal _ => .internal

end DraftError

end TaggedText
