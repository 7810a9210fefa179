import TaggedText.Pattern.Search
import TaggedText.Text.Radix

/-!
Character entities. An entity stands for one character, by a name or by a code point, and is
written between an ampersand and a semicolon. Everything of that shape counts as an occurrence,
and those that stand for no character are left as they are.
-/

namespace TaggedText.Entity

/-- Decimal digits. -/
def decimal : CharSet :=
  .range '0' '9'

/-- Hexadecimal digits. -/
def hexadecimal : CharSet :=
  .unionAll [.range '0' '9', .range 'a' 'f', .range 'A' 'F']

/-- ASCII letters. -/
def letter : CharSet :=
  .union (.range 'A' 'Z') (.range 'a' 'z')

/-- ASCII letters and digits. -/
def letterOrDigit : CharSet :=
  .union letter decimal

/-- One to a number of characters of a set. -/
def upToMany (set : CharSet) (most : Nat) : Pattern :=
  .seq (.one set) (.upTo (.one set) false (most - 1))

/-- The shape of an entity: up to seven decimal digits or six hexadecimal ones behind a number
sign, or a name of two to thirty-two letters and digits that begins with a letter.
-/
def pattern : Pattern :=
  .seqAll [
    .char '&',
    .altAll [
      .seq (.char '#') (upToMany decimal 7),
      .seqAll [.char '#', .one (.ofList ['x', 'X']), upToMany hexadecimal 6],
      .seq (.one letter) (upToMany letterOrDigit 31)
    ],
    .char ';'
  ]

/-- The characters that have a name. -/
def named? (name : Text) : Option Char :=
  match String.ofList name with
  | "amp" => some '&'
  | "lt" => some '<'
  | "gt" => some '>'
  | "quot" => some '"'
  | "apos" => some '\''
  | "nbsp" => some '\u00A0'
  | "ensp" => some '\u2002'
  | "emsp" => some '\u2003'
  | "thinsp" => some '\u2009'
  | "ndash" => some '\u2013'
  | "mdash" => some '\u2014'
  | "lsquo" => some '\u2018'
  | "rsquo" => some '\u2019'
  | "sbquo" => some '\u201A'
  | "ldquo" => some '\u201C'
  | "rdquo" => some '\u201D'
  | "bdquo" => some '\u201E'
  | "laquo" => some '\u00AB'
  | "raquo" => some '\u00BB'
  | "hellip" => some '\u2026'
  | "bull" => some '\u2022'
  | "middot" => some '\u00B7'
  | "copy" => some '\u00A9'
  | "reg" => some '\u00AE'
  | "trade" => some '\u2122'
  | "deg" => some '\u00B0'
  | "euro" => some '\u20AC'
  | "pound" => some '\u00A3'
  | "yen" => some '\u00A5'
  | "cent" => some '\u00A2'
  | "sect" => some '\u00A7'
  | "para" => some '\u00B6'
  | "times" => some '\u00D7'
  | "divide" => some '\u00F7'
  | "iexcl" => some '\u00A1'
  | "iquest" => some '\u00BF'
  | "shy" => some '\u00AD'
  | _ => none

/-- The character with a code point written in a base, a plus sign in front allowed. -/
def numbered? (base : Nat) (digits : Text) : Option Char :=
  let digits :=
    match digits with
    | '+' :: rest => rest
    | _ => digits
  (Text.readNat? base digits).bind Text.scalar?

/-- The character that stands between the ampersand and the semicolon of an entity. -/
def body? : Text → Option Char
  | '#' :: 'x' :: digits => numbered? 16 digits
  | '#' :: 'X' :: digits => numbered? 16 digits
  | '#' :: digits => numbered? 10 digits
  | name => named? name

/-- The character that an entity stands for. -/
def resolve? : Text → Option Char
  | '&' :: rest => if rest.getLast? == some ';' then body? rest.dropLast else none
  | _ => none

/-- The character that a piece of a text searched for entities is replaced by. -/
def replacement? : Piece → Option Char
  | .skipped _ => none
  | .found text => resolve? text

/-- The spans of the entities of a text, whether they stand for a character or not. -/
def occurrences (text : Text) : List Span :=
  pattern.spans text

/-- Whether a text holds an entity that stands for a character. -/
def isPresent (text : Text) : Bool :=
  (pattern.pieces text).any fun piece => (replacement? piece).isSome

/-- The text with each entity that stands for a character replaced by it, once. -/
def unescape (text : Text) : Text :=
  (pattern.pieces text).flatMap fun piece =>
    match replacement? piece with
    | some c => [c]
    | none => piece.text

end TaggedText.Entity
