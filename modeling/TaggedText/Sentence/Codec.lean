import TaggedText.Json.Basic
import TaggedText.Sentence.Basic

/-!
Sentences and tokens as JSON values. A record is written as an object. It is read from an object
whose fields stand in any order among others, or from an array of its fields in their order.
Spaces and names may be missing from an object; annotations are left out when there are none.
-/

namespace TaggedText

namespace Json

/-- The fields of a record that an object gives by name or an array by position. An array may
lack as many fields at its end as can be left out.
-/
def recordFields? (names : List String) (omissible : Nat) : Json → Option (List (String × Json))
  | object fields => some fields
  | array items =>
      if items.length ≤ names.length && names.length ≤ items.length + omissible then
        some (names.zip items)
      else none
  | _ => none

/-- A text that has to be there. -/
def textField? (fields : List (String × Json)) (name : String) : Option Text :=
  ((find? fields name).bind string?).map String.toList

/-- A text that may be null or missing. -/
def optionalField? (fields : List (String × Json)) (name : String) : Option (Option Text) :=
  match find? fields name with
  | none | some null => some none
  | some (string value) => some (some value.toList)
  | some _ => none

/-- A truth value that has to be there. -/
def boolField? (fields : List (String × Json)) (name : String) : Option Bool :=
  (find? fields name).bind bool?

/-- A whole number that has to be there. -/
def naturalField? (fields : List (String × Json)) (name : String) : Option Nat :=
  (find? fields name).bind natural?

/-- An array that has to be there, of values that a decoder reads. -/
def listField? (decode? : Json → Option α) (fields : List (String × Json)) (name : String)
    : Option (List α) :=
  ((find? fields name).bind array?).bind (·.mapM decode?)

end Json

namespace Word

/-- The fields of a word in their order. -/
def fieldNames : List String := [
  "text", "original", "left_space", "right_space", "hidden_left_space", "hidden_right_space",
  "left_space_required", "right_space_required"
]

/-- The fields of a word as JSON. -/
def toFields (word : Word) : List (String × Json) := [
  ("text", .ofText word.text),
  ("original", .ofText word.source),
  ("left_space", .ofOption .ofText word.leftSpace),
  ("right_space", .ofOption .ofText word.rightSpace),
  ("hidden_left_space", .bool word.hiddenLeft),
  ("hidden_right_space", .bool word.hiddenRight),
  ("left_space_required", .bool word.leftRequired),
  ("right_space_required", .bool word.rightRequired)
]

/-- The word that fields describe. -/
def ofFields? (fields : List (String × Json)) : Option Word := do
  let text ← Json.textField? fields "text"
  let source ← Json.textField? fields "original"
  let leftSpace ← Json.optionalField? fields "left_space"
  let rightSpace ← Json.optionalField? fields "right_space"
  let hiddenLeft ← Json.boolField? fields "hidden_left_space"
  let hiddenRight ← Json.boolField? fields "hidden_right_space"
  let leftRequired ← Json.boolField? fields "left_space_required"
  let rightRequired ← Json.boolField? fields "right_space_required"
  return {
    text, source, leftSpace, rightSpace, hiddenLeft, hiddenRight, leftRequired, rightRequired
  }

/-- A word as JSON. -/
def toJson (word : Word) : Json :=
  .object word.toFields

/-- The word that a value describes. -/
def ofJson? (json : Json) : Option Word :=
  (json.recordFields? fieldNames 0).bind ofFields?

end Word

namespace TagKind

/-- The name of a kind of tag. -/
def name : TagKind → String
  | opening => "Opening"
  | closing => "Closing"
  | selfClosing => "SelfClosing"
  | comment => "Comment"

/-- The kind of tag of a name. -/
def ofName? : String → Option TagKind
  | "Opening" => some opening
  | "Closing" => some closing
  | "SelfClosing" => some selfClosing
  | "Comment" => some comment
  | _ => none

/-- The kind of tag that a value names, by itself or as the only field of an object, empty. -/
def ofJson? : Json → Option TagKind
  | .string name => ofName? name
  | .object [(name, .null)] => ofName? name
  | _ => none

end TagKind

namespace Tag

/-- The fields of a tag in their order. -/
def fieldNames : List String :=
  ["kind", "name", "text", "original", "left_space", "right_space", "position"]

/-- The fields of a tag as JSON. -/
def toFields (tag : Tag) : List (String × Json) := [
  ("kind", .string tag.kind.name),
  ("name", .ofOption .ofText tag.name),
  ("text", .ofText tag.text),
  ("original", .ofText tag.source),
  ("left_space", .ofOption .ofText tag.leftSpace),
  ("right_space", .ofOption .ofText tag.rightSpace),
  ("position", .natural tag.position)
]

/-- The tag that fields describe. -/
def ofFields? (fields : List (String × Json)) : Option Tag := do
  let kind ← (Json.find? fields "kind").bind TagKind.ofJson?
  let name ← Json.optionalField? fields "name"
  let text ← Json.textField? fields "text"
  let source ← Json.textField? fields "original"
  let leftSpace ← Json.optionalField? fields "left_space"
  let rightSpace ← Json.optionalField? fields "right_space"
  let position ← Json.naturalField? fields "position"
  return { kind, name, text, source, leftSpace, rightSpace, position }

/-- A tag as JSON. -/
def toJson (tag : Tag) : Json :=
  .object tag.toFields

/-- The tag that a value describes. -/
def ofJson? (json : Json) : Option Tag :=
  (json.recordFields? fieldNames 0).bind ofFields?

end Tag

namespace Token

/-- A token as JSON: the fields of its word or tag behind one that tells which of them it is. -/
def toJson : Token → Json
  | word w => .object (("type", .string "word") :: w.toFields)
  | tag t => .object (("type", .string "tag") :: t.toFields)

/-- The token of a kind that a record describes. -/
def ofRecord? (type : Json) (record : Json) : Option Token :=
  match type with
  | .string "word" => (Word.ofJson? record).map word
  | .string "tag" => (Tag.ofJson? record).map tag
  | _ => none

/-- The token that a value describes. In an array the kind comes first. -/
def ofJson? : Json → Option Token
  | .object fields => (Json.find? fields "type").bind (ofRecord? · (.object fields))
  | .array (type :: fields) => ofRecord? type (.array fields)
  | _ => none

end Token

namespace Sentence

/-- A sentence as JSON. -/
def toJson (sentence : Sentence) : Json :=
  .object <|
    [
      ("words", .array (sentence.words.map Word.toJson)),
      ("tags", .array (sentence.tags.map Tag.toJson))
    ]
    ++ if sentence.annotations.names.isEmpty then []
      else [("annotations", .array (sentence.annotations.names.map .string))]

/-- The annotations that fields give, none if there is no such field. -/
def annotationsOf? (fields : List (String × Json)) : Option Annotations :=
  match Json.find? fields "annotations" with
  | none => some .empty
  | some value => (value.array?.bind (·.mapM Json.string?)).map .ofList

/-- The sentence that a value describes. -/
def ofJson? (json : Json) : Option Sentence := do
  let fields ← json.recordFields? ["words", "tags", "annotations"] 1
  let words ← Json.listField? Word.ofJson? fields "words"
  let tags ← Json.listField? Tag.ofJson? fields "tags"
  let annotations ← annotationsOf? fields
  return { words, tags, annotations }

end Sentence

end TaggedText
