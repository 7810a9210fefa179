import TaggedText.Json.Reader
import TaggedText.Proofs.Entity.Grammar

/-!
The grammar of JSON, apart from any reader: which texts spell a value. Blanks can stand between all parts
of a value, and every character of a string can be spelled in several ways.
-/

namespace TaggedText

namespace Json

/-- Characters that can stand between the parts of a value. -/
def AreBlanks (text : Text) : Prop :=
  ∀ c ∈ text, c = ' ' ∨ c = '\n' ∨ c = '\t' ∨ c = '\r'

/-- Decimal digits, at least one. -/
def AreDigits (text : Text) : Prop :=
  text ≠ [] ∧ ∀ c ∈ text, c.isDigit = true

-----------------------------------------------------------------------------------------
-- Strings
-----------------------------------------------------------------------------------------

/-- Four hexadecimal digits, in lower or upper case, for a code unit. -/
structure IsUnit (code : Nat) (digits : Text) : Prop where
  four : digits.length = 4
  areDigits : ∀ c ∈ digits, Entity.isHexDigit c = true
  isValue : Entity.valueOf 16 digits = code

/-- The letters that stand for characters behind a backslash. -/
def letters : List (Char × Char) :=
  [
    ('"', '"'), ('\\', '\\'), ('/', '/'), ('b', '\x08'), ('f', '\x0c'), ('n', '\n'), ('r', '\r'),
    ('t', '\t')
  ]

/-- The spellings of a character inside of quotes: itself, a letter, the code unit that it is, or the two
halves of a surrogate pair behind backslashes.
-/
inductive SpellsChar : Char → Text → Prop
  | plain {c : Char} (notControl : ' ' ≤ c) (notQuote : c ≠ '"') (notBackslash : c ≠ '\\')
    : SpellsChar c [c]
  | letter {letter c : Char} (stands : (letter, c) ∈ letters) : SpellsChar c ['\\', letter]
  | unit {c : Char} {digits : Text} (isUnit : IsUnit c.toNat digits)
    : SpellsChar c ('\\' :: 'u' :: digits)
  | pair {c : Char} {high low : Text} (isLarge : 0x10000 ≤ c.toNat)
    (isHigh : IsUnit (0xD800 + (c.toNat - 0x10000) / 0x400) high)
    (isLow : IsUnit (0xDC00 + (c.toNat - 0x10000) % 0x400) low)
    : SpellsChar c ('\\' :: 'u' :: (high ++ '\\' :: 'u' :: low))

/-- The spellings of a text inside of quotes. -/
inductive SpellsText : Text → Text → Prop
  | nil : SpellsText [] []
  | cons {c : Char} {rest spelled more : Text} (first : SpellsChar c spelled)
    (later : SpellsText rest more)
    : SpellsText (c :: rest) (spelled ++ more)

-----------------------------------------------------------------------------------------
-- Numbers
-----------------------------------------------------------------------------------------

/-- The digits in front of a fraction: a single zero, or no zero first. -/
inductive IsInteger : Text → Prop
  | zero : IsInteger ['0']
  | digits {first : Char} {rest : Text} (isDigit : first.isDigit = true) (notZero : first ≠ '0')
    (areDigits : ∀ c ∈ rest, c.isDigit = true)
    : IsInteger (first :: rest)

/-- A fraction with its point, or none. -/
inductive IsFraction : Text → Prop
  | none : IsFraction []
  | some {digits : Text} (areDigits : AreDigits digits) : IsFraction ('.' :: digits)

/-- An exponent with its letter and maybe a sign, or none. -/
inductive IsExponent : Text → Prop
  | none : IsExponent []
  | some {mark : Char} {sign digits : Text} (isMark : mark = 'e' ∨ mark = 'E')
    (isSign : sign = [] ∨ sign = ['+'] ∨ sign = ['-']) (areDigits : AreDigits digits)
    : IsExponent (mark :: (sign ++ digits))

/-- A number of any size. -/
inductive IsNumeral : Text → Prop
  | number {sign integer fraction exponent : Text} (isSign : sign = [] ∨ sign = ['-'])
    (isInteger : IsInteger integer) (isFraction : IsFraction fraction)
    (isExponent : IsExponent exponent)
    : IsNumeral (sign ++ (integer ++ (fraction ++ exponent)))

-----------------------------------------------------------------------------------------
-- Values
-----------------------------------------------------------------------------------------

/-- The spellings of values without parts. -/
inductive SpellsLiteral : Json → Text → Prop
  | null : SpellsLiteral .null ['n', 'u', 'l', 'l']
  | true : SpellsLiteral (.bool true) ['t', 'r', 'u', 'e']
  | false : SpellsLiteral (.bool false) ['f', 'a', 'l', 's', 'e']
  | natural {value : Nat} : SpellsLiteral (.natural value) (Nat.toDigits 10 value)
  | number {written : Text} (isNumeral : IsNumeral written) : SpellsLiteral (.number written) written
  | string {value : String} {spelled : Text} (spells : SpellsText value.toList spelled)
    : SpellsLiteral (.string value) ('"' :: (spelled ++ ['"']))

/-- What a text can spell: a value, or the items of an array or the fields of an object with the closing
bracket, from the first one on or from a later one on.
-/
inductive Part where
  | value
  | items (isFirst : Bool)
  | fields (isFirst : Bool)

/-- What is spelled. -/
@[reducible]
def Part.Content : Part → Type
  | value => Json
  | items _ => List Json
  | fields _ => List (String × Json)

/-- What stands in front of an item or a field: a comma unless it is the first one. -/
def separator (isFirst : Bool) : Text :=
  if isFirst then [] else [',']

/-- The spellings of values and of the parts of arrays and objects. -/
inductive Spells : (part : Part) → part.Content → Text → Prop
  | literal {json : Json} {front text : Text} (blanks : AreBlanks front)
    (literal : SpellsLiteral json text)
    : Spells .value json (front ++ text)
  | array {items : List Json} {front text : Text} (blanks : AreBlanks front)
    (spells : Spells (.items true) items text)
    : Spells .value (.array items) (front ++ '[' :: text)
  | object {fields : List (String × Json)} {front text : Text} (blanks : AreBlanks front)
    (spells : Spells (.fields true) fields text)
    : Spells .value (.object fields) (front ++ '\x7b' :: text)
  | noItems {isFirst : Bool} {front : Text} (blanks : AreBlanks front)
    : Spells (.items isFirst) [] (front ++ [']'])
  | item {isFirst : Bool} {item : Json} {rest : List Json} {front text more : Text}
    (blanks : AreBlanks front) (first : Spells .value item text)
    (later : Spells (.items false) rest more)
    : Spells (.items isFirst) (item :: rest) (front ++ (separator isFirst ++ (text ++ more)))
  | noFields {isFirst : Bool} {front : Text} (blanks : AreBlanks front)
    : Spells (.fields isFirst) [] (front ++ ['\x7d'])
  | field {isFirst : Bool} {name : String} {value : Json} {rest : List (String × Json)}
    {front inner spelled back text more : Text} (blanks : AreBlanks front)
    (innerBlanks : AreBlanks inner) (spellsName : SpellsText name.toList spelled)
    (backBlanks : AreBlanks back) (first : Spells .value value text)
    (later : Spells (.fields false) rest more)
    : Spells (.fields isFirst) ((name, value) :: rest)
        (front ++ (separator isFirst
          ++ (inner ++ ('"' :: (spelled ++ '"' :: (back ++ ':' :: (text ++ more)))))))

/-- A text holds a value if it spells the value, and nothing but blanks stands behind it. -/
def IsHeldBy (json : Json) (text : Text) : Prop :=
  ∃ front back, Spells .value json front ∧ AreBlanks back ∧ text = front ++ back

end Json

end TaggedText
