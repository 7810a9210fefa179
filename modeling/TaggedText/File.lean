import TaggedText.Text.Utf8

/-!
What stands at a path of a file system.
-/

namespace TaggedText

/-- Nothing, a directory, or a file with its bytes. -/
inductive File where
  | missing
  | directory
  | regular (content : Bytes)
deriving DecidableEq

namespace File

/-- The bytes that can be read at once. -/
def content? : File → Option Bytes
  | regular content => some content
  | _ => none

end File

end TaggedText
