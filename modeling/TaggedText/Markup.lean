import TaggedText.Pattern.Search
import TaggedText.Sentence.Token
import TaggedText.Text.Alphanumeric

/-!
Markup: which parts of a text are tags or comments, and how the text of a tag tells its kind and
its name.
-/

namespace TaggedText.Markup

/-- Characters that begin the name of a tag. -/
def nameStart : CharSet :=
  .unionAll [.range 'A' 'Z', .range 'a' 'z', .single '_']

/-- Characters that go on with the name of a tag. -/
def nameRest : CharSet :=
  .unionAll [.range 'A' 'Z', .range 'a' 'z', .range '0' '9', .ofList ['_', ':', '.', '-']]

/-- A comment, up to the first place where it can end. -/
def comment : Pattern :=
  .seqAll [.literal ['<', '!', '-', '-'], .lazyStar (.one .anything), .literal ['-', '-', '>']]

/-- A tag: its name behind an optional slash, attributes behind a blank, and an optional slash
in front of the closing bracket.
-/
def tag : Pattern :=
  .seqAll [
    .char '<',
    .optional (.char '/'),
    .one nameStart,
    .star (.one nameRest),
    .optional (.seq (.one .blank) (.star (.one (.complement (.ofList ['<', '>']))))),
    .optional (.char '/'),
    .char '>'
  ]

/-- A comment or a tag. -/
def pattern : Pattern :=
  .alt comment tag

/-- The characters of a tag's name. -/
def isNameChar (c : Char) : Bool :=
  Text.isAlphanumeric c || c == '-' || c == '_' || c == ':' || c == '.'

/-- The text inside the brackets of a tag, however many there are. -/
def inside (text : Text) : Text :=
  (text.trimStart (· == '<')).trimEnd (· == '>')

/-- The kind that a slash at either end of the inside of a tag tells, and the rest of it. -/
def splitSlash (text : Text) : TagKind × Text :=
  match text with
  | '/' :: rest => (.closing, rest)
  | _ => if text.getLast? == some '/' then (.selfClosing, text.dropLast) else (.opening, text)

/-- The name at the start of the inside of a tag, behind exclamation and question marks. -/
def name? (text : Text) : Option Text :=
  let name := (text.trimStart fun c => c == '!' || c == '?').takeWhile isNameChar
  if name.isEmpty then none else some name

/-- The kind and the name that the text of a tag tells. -/
def classify (text : Text) : TagKind × Option Text :=
  let trimmed := (text.trimStart Text.isBlank).trimEnd Text.isBlank
  match trimmed with
  | '<' :: '!' :: '-' :: '-' :: _ => (.comment, none)
  | _ =>
      let (kind, rest) := splitSlash (inside trimmed)
      (kind, name? rest)

end TaggedText.Markup
