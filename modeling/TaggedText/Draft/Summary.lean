import TaggedText.Draft.Basic
import TaggedText.Text.Quoted

/-!
Short descriptions of drafts for people to read.
-/

namespace TaggedText.Draft

/-- The texts of a draft, the number of its committed edits, and whether it is being edited. -/
def summary (draft : Draft) : Text :=
  "SentenceBuilder \x7b original: ".toList
    ++ Text.quoted (draft.document.elim [] (·.source))
    ++ ", current: ".toList ++ Text.quoted draft.working
    ++ s!", transformations: {draft.log.length}, editing: {draft.isInUse} \x7d".toList

end TaggedText.Draft
