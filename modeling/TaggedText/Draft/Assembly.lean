import TaggedText.Draft.Claims
import TaggedText.Entity
import TaggedText.Sentence.Basic

/-!
Assembling a sentence from settled edits. Each edit gives one token, in the order in which the
edits are drawn. The spaces around a token are the white space that the source text has in the
gaps to its neighbours, entities taken as their characters.
-/

namespace TaggedText

namespace Edit

/-- The edit with the entities among its claimed characters replaced, if it makes words. -/
def unescaped (edit : Edit) : Edit :=
  if edit.isWord then { edit with claimed := Entity.unescape edit.claimed } else edit

end Edit

namespace Assembly

/-- The white space of the source text between two positions. -/
def gap (source : Text) (start stop : Nat) : Except DraftError (Option Text) :=
  if stop ≤ start then .ok none
  else
    match source.slice? start stop with
    | none => .error (.internal (.badGap start stop))
    | some between =>
        let space := (Entity.unescape between).filter Text.isBlank
        .ok (if space.isEmpty then none else some space)

/-- Whether two edits touch while only one of them makes words. -/
def areJoined (left right : Edit) : Bool :=
  left.span.stop == right.span.start && left.isWord != right.isWord

/-- A token with its sides marked as hidden, if it is a word. -/
def hide (left right : Bool) : Token → Token
  | .word word => .word { word with hiddenLeft := left, hiddenRight := right }
  | token => token

/-- The token of an edit between its neighbours, behind a number of words. -/
def token (source : Text) (previous : Option Edit) (edit : Edit) (next : Option Edit)
    (position : Nat)
    : Except DraftError Token :=
  let leftEnd := previous.elim 0 (·.span.stop)
  let rightEnd := next.elim source.size (·.span.start)
  match gap source leftEnd edit.span.start with
  | .error error => .error error
  | .ok leftSpace =>
      match gap source edit.span.stop rightEnd with
      | .error error => .error error
      | .ok rightSpace =>
          match edit.maker with
          | none => .error (.internal .missingMaker)
          | some maker =>
              let made := maker.make {
                source := edit.claimed
                marked := edit.text
                leftSpace
                rightSpace
                position
              }
              .ok <| hide (previous.any (areJoined · edit)) (next.any (areJoined edit ·)) made

/-- The tokens of edits behind an earlier one and a number of words. -/
def tokens (source : Text) (previous : Option Edit) (position : Nat)
    : List Edit → Except DraftError (List Token)
  | [] => .ok []
  | edit :: rest =>
      match token source previous edit rest.head? position with
      | .error error => .error error
      | .ok made =>
          let position := if made.isWord then position + 1 else position
          (tokens source (some edit) position rest).map (made :: ·)

/-- The edits of a log at some indices. An edit of words has its entities replaced each time it
is drawn.
-/
def draw (log : Array Edit) : List Nat → List Edit
  | [] => []
  | index :: rest =>
      match log[index]? with
      | none => draw log rest
      | some edit =>
          let drawn := edit.unescaped
          drawn :: draw (log.setIfInBounds index drawn) rest

/-- The sentence of the edits of a log at some indices, one token for each. -/
def assemble (source : Text) (log : List Edit) (order : List Nat)
    : Except DraftError Sentence :=
  (tokens source none 0 (draw log.toArray order)).map .ofTokens

end Assembly

end TaggedText
