import TaggedText.Draft.Session

/-!
Passes over the working text of a draft. The built-in ones look for a pattern and commit one
edit for each match, in a session of their own: tags become spaces, entities their characters,
blank runs single spaces, and words and punctuation marks are marked as words.
-/

namespace TaggedText

/-- A pass over a draft. One that fails leaves the draft as it was. -/
structure Pass where
  name : String
  run : Draft → Except DraftError Draft

namespace Pass

/-- A run of blanks. -/
def blankRun : Pattern :=
  .plus (.one .blank)

/-- Word characters, with single apostrophes between them, or one other character. -/
def wordPattern : Pattern :=
  .alt
    (.seq (.plus (.one .word))
      (.star (.seq (.one (.ofList ['\'', '\u2019'])) (.plus (.one .word)))))
    (.one (.complement (.union .word .blank)))

/-- The annotation of sentences with markup. -/
def markupAnnotation : String :=
  "xml"

/-- Asks for a tag in place of each match, with a space left behind. -/
def markupRequests (text : Text) : List EditRequest :=
  (Markup.pattern.spans text).map fun span =>
    .token .markup span.start span.length (some [' '])

/-- Asks for replacements of pieces of a text, the first of which stands at a position. -/
def pieceRequests (replacement? : Piece → Option Text) : Nat → List Piece → List EditRequest
  | _, [] => []
  | position, piece :: rest =>
      let requests := pieceRequests replacement? (position + piece.text.size) rest
      match replacement? piece with
      | some replacement => .replace position piece.text.size replacement :: requests
      | none => requests

/-- Asks for the characters of entities in their places. -/
def entityRequests (text : Text) : List EditRequest :=
  pieceRequests (fun piece => (Entity.replacement? piece).map ([·])) 0
    (Entity.pattern.pieces text)

/-- What a piece of a text searched for blank runs is replaced by. -/
def singleSpace? : Piece → Option Text
  | .skipped _ => none
  | .found run => if run == [' '] then none else some [' ']

/-- Asks for single spaces in place of other blank runs. -/
def blankRequests (text : Text) : List EditRequest :=
  pieceRequests singleSpace? 0 (blankRun.pieces text)

/-- Asks for a word for each match. -/
def wordRequests (text : Text) : List EditRequest :=
  (wordPattern.spans text).map fun span => .word span.start span.length none

/-- Turns tags and comments into tokens and leaves a space for each. -/
def markup : Pass where
  name := "xml-tags"
  run draft :=
    let requests := markupRequests draft.working
    (draft.apply requests).map fun draft =>
      if requests.isEmpty then draft else draft.annotate markupAnnotation

/-- Replaces entities by their characters. -/
def entities : Pass where
  name := "entities"
  run draft := draft.apply (entityRequests draft.working)

/-- Replaces blank runs by single spaces. -/
def blanks : Pass where
  name := "whitespace"
  run draft := draft.apply (blankRequests draft.working)

/-- Marks words and punctuation marks. -/
def words : Pass where
  name := "tokenizer"
  run draft := draft.apply (wordRequests draft.working)

/-- Commits fixed edits. -/
def edits (requests : List EditRequest) : Pass where
  name := "edits"
  run draft := draft.apply requests

/-- Opens a session and gives it up. -/
def leak : Pass where
  name := "leak"
  run := Draft.leak

/-- The built-in passes. -/
def builtIn : List Pass :=
  [markup, entities, blanks, words]

/-- The built-in pass of a name. -/
def named? (name : String) : Option Pass :=
  builtIn.find? (·.name == name)

/-- Runs passes in order, up to the first that fails. The draft is handed back in any case. -/
def runAll : List Pass → Draft → Except DraftError Unit × Draft
  | [], draft => (.ok (), draft)
  | pass :: rest, draft =>
      match pass.run draft with
      | .error error => (.error error, draft)
      | .ok draft => runAll rest draft

end Pass

end TaggedText
