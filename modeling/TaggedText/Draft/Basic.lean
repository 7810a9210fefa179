import TaggedText.Draft.Assembly
import TaggedText.PositionMap
import TaggedText.Spacing.Annotator

/-!
Drafts carry an input through its edits to a sentence. The working text changes with every
committed edit, the source text never does, and a position map leads from the one to the other.
A session that is opened and given up keeps its draft in use for good.
-/

namespace TaggedText

/-- An input with all edits committed to it so far, latest last. -/
structure Document where
  source : Text
  working : Text
  map : PositionMap
  log : List Edit

namespace Document

/-- An input that has not been edited. -/
def ofText (text : Text) : Document where
  source := text
  working := text
  map := .identity text.size
  log := []

end Document

/-- A draft of a sentence, with the document that it holds if one is loaded. -/
structure Draft where
  annotator : Annotator
  document : Option Document := none
  annotations : Annotations := {}
  isInUse : Bool := false

namespace Draft

/-- A new draft for the words of a language. -/
def ofLanguage (language : String) : Draft where
  annotator := .ofLanguage language

/-- The draft with a new input. A session that was given up keeps it in use. -/
def load (draft : Draft) (text : Text) : Draft :=
  { draft with document := some (.ofText text), annotations := .empty }

/-- The draft without an input. -/
def clear (draft : Draft) : Draft :=
  { draft with document := none, annotations := .empty }

/-- The draft with an annotation for its sentences. -/
def annotate (draft : Draft) (name : String) : Draft :=
  { draft with annotations := draft.annotations.insert name }

/-- The working text, empty without an input. -/
def working (draft : Draft) : Text :=
  draft.document.elim [] (·.working)

/-- The committed edits. -/
def log (draft : Draft) : List Edit :=
  draft.document.elim [] (·.log)

/-- The position map of the working text. -/
def map (draft : Draft) : PositionMap :=
  draft.document.elim (.identity 0) (·.map)

/-- The sentence of a document before its words are marked. -/
def assemble (document : Document) (annotations : Annotations)
    : Except DraftError Sentence :=
  match Claims.settle document.source document.log with
  | .error error => .error error
  | .ok settled =>
      (Assembly.assemble document.source settled.log settled.order).map fun sentence =>
        { sentence with annotations }

/-- The sentence of all edits committed so far. Building changes nothing, so it can be repeated
and go on with further edits.
-/
def build (draft : Draft) : Except DraftError Sentence :=
  match draft.document with
  | none => .error .notLoaded
  | some document =>
      match assemble document draft.annotations with
      | .error error => .error error
      | .ok sentence => draft.annotator.annotate sentence

end Draft

end TaggedText
