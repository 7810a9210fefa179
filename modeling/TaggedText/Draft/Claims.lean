import TaggedText.Draft.Edit
import TaggedText.Draft.Error

/-!
Claims of token edits on the source text. Edits are served in the order of their commits: each
one gets the bytes of its span that none before it has taken. Its token begins with the first of
these bytes and ends where they are first interrupted, while its characters are all of them.
-/

namespace TaggedText

/-- The edits after their claims are settled, and the indices of those that make a token, in the
order of the source text.
-/
structure Settlement where
  log : List Edit
  order : List Nat

namespace Claims

/-- What is left of a span outside spans that are taken, as non-empty pieces in order. -/
def remaining (taken : List Span) (span : Span) : List Span :=
  (taken.filter span.meets).foldl (fun pieces other => pieces.flatMap (·.minus other))
    (if span.isEmpty then [] else [span])

/-- The characters of pieces of a text, joined. -/
def gather (source : Text) : List Span → Except DraftError Text
  | [] => .ok []
  | piece :: rest =>
      match source.slice? piece.start piece.stop with
      | none => .error (.internal (.claimSplitsCharacter piece.start piece.stop))
      | some text => (gather source rest).map (text ++ ·)

/-- An edit's claim while others have been served: nothing if the edit makes no token or finds
nothing left, else the edit with its new span and characters.
-/
def claim (source : Text) (taken : List Span) (edit : Edit)
    : Except DraftError (Option Edit) :=
  if !edit.makesToken then .ok none
  else if source.size < edit.span.stop then
    .error (.internal (.editPastEnd edit.span.stop source.size))
  else
    match remaining taken edit.span with
    | [] => .ok none
    | first :: rest =>
        (gather source (first :: rest)).map fun claimed =>
          some { edit with span := first, claimed }

/-- Serves edits in order. The result pairs each edit with whether it got anything. -/
def serve (source : Text) (taken : List Span)
    : List Edit → Except DraftError (List (Edit × Bool))
  | [] => .ok []
  | edit :: rest =>
      match claim source taken edit with
      | .error error => .error error
      | .ok none => (serve source taken rest).map ((edit, false) :: ·)
      | .ok (some settled) =>
          (serve source (edit.span :: taken) rest).map ((settled, true) :: ·)

/-- The indices of the served edits, by the start of their spans. -/
def order (served : List (Edit × Bool)) : List Nat :=
  let starts := served.zipIdx.filterMap fun ((edit, isServed), index) =>
    if isServed then some (edit.span.start, index) else none
  (starts.mergeSort fun a b => a.1 ≤ b.1).map (·.2)

/-- Settles the claims of a log of edits on the source text. -/
def settle (source : Text) (log : List Edit) : Except DraftError Settlement :=
  (serve source [] log).map fun served => ⟨served.map (·.1), order served⟩

end Claims

end TaggedText
