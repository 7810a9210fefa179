import TaggedText.Text.Span

/-!
Position maps lead from the working text back to the source. A map is a row of runs. A copied
run stands for as many source bytes in order; a replaced run stands for one source position,
the place where the replaced text began. The byte behind a replacement maps to the place where
the replaced text ended, so a span that covers a replacement exactly leads back to all of it.
-/

namespace TaggedText

/-- Bytes of the working text that come from the source in one way. -/
structure Run where
  length : Nat
  origin : Nat
  isCopied : Bool
deriving DecidableEq, Repr

namespace Run

/-- The source position of a byte of a run. -/
def toSource (run : Run) (offset : Nat) : Nat :=
  if run.isCopied then run.origin + offset else run.origin

/-- A run from one of its bytes on. -/
def drop (run : Run) (offset : Nat) : Run :=
  { run with length := run.length - offset, origin := run.toSource offset }

/-- The run that holds a position of a row, with the offset of the position in it. -/
def find? : List Run → Nat → Option (Run × Nat)
  | [], _ => none
  | run :: rest, position =>
      if position < run.length then some (run, position) else find? rest (position - run.length)

/-- The runs that cover the bytes before a position. -/
def before : List Run → Nat → List Run
  | [], _ => []
  | run :: rest, position =>
      if position = 0 then []
      else if position < run.length then [{ run with length := position }]
      else run :: before rest (position - run.length)

/-- The runs that cover the bytes from a position on. -/
def after : List Run → Nat → List Run
  | [], _ => []
  | run :: rest, position =>
      if position = 0 then run :: rest
      else if position < run.length then run.drop position :: rest
      else after rest (position - run.length)

/-- The number of bytes that runs cover. -/
def total : List Run → Nat
  | [] => 0
  | run :: rest => run.length + total rest

end Run

/-- A map from positions of a working text to positions of its source. -/
structure PositionMap where
  runs : List Run := []
  sourceSize : Nat := 0
deriving DecidableEq, Repr

namespace PositionMap

/-- The map of a text of some size that has not been edited. -/
def identity (size : Nat) : PositionMap where
  runs := if size = 0 then [] else [⟨size, 0, true⟩]
  sourceSize := size

/-- The size of the working text. -/
def workingSize (map : PositionMap) : Nat :=
  Run.total map.runs

/-- The source position of a working position. The end of the working text and everything
behind it lead to the end of the source.
-/
def toSource (map : PositionMap) (position : Nat) : Nat :=
  match Run.find? map.runs position with
  | some (run, offset) => run.toSource offset
  | none => map.sourceSize

/-- Whether the byte at a working position was copied from the source. -/
def isCopied (map : PositionMap) (position : Nat) : Bool :=
  match Run.find? map.runs position with
  | some (run, _) => run.isCopied
  | none => false

/-- The map after the bytes of a working span were replaced by a number of new bytes. -/
def edit (map : PositionMap) (span : Span) (newSize : Nat) : PositionMap :=
  let inserted := if newSize = 0 then [] else [⟨newSize, map.toSource span.start, false⟩]
  { map with
    runs := Run.before map.runs span.start ++ inserted ++ Run.after map.runs span.stop }

/-- The source positions of all working positions up to and with a last one. -/
def table (map : PositionMap) (last : Nat) : List Nat :=
  (List.range (last + 1)).map map.toSource

end PositionMap

end TaggedText
