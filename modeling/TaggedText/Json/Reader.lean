import TaggedText.Json.Basic
import TaggedText.Text.Radix

/-!
Reading JSON from left to right. A reader takes what it needs from the front of a text and hands
on the rest. The first fault it meets ends the reading, and tells whether the text is malformed
there, ends too early, or holds a value of another kind than wanted.
-/

namespace TaggedText.Json

/-- Why a text cannot be read. -/
inductive Fault where
  | malformed
  | unfinished
  | mismatched
deriving DecidableEq, Repr

/-- A reader of a value from the front of a text. -/
abbrev Reader (α : Type) := StateT Text (Except Fault) α

namespace Reader

/-- Gives up. -/
def fail (fault : Fault) : Reader α :=
  throw fault

/-- Takes the next character if there is one. -/
def next? : Reader (Option Char) := do
  match ← get with
  | [] => return none
  | c :: rest => set rest; return some c

/-- Takes the next character. -/
def next : Reader Char := do
  match ← next? with
  | none => fail .unfinished
  | some c => return c

/-- The next character, which is not taken. -/
def peek? : Reader (Option Char) := do
  return (← get).head?

/-- Whether a character can stand between the parts of a value. -/
def isBlank (c : Char) : Bool :=
  c == ' ' || c == '\n' || c == '\t' || c == '\r'

/-- The next character behind blanks, which are taken. -/
def peekPart? : Reader (Option Char) := do
  modify (·.dropWhile isBlank)
  peek?

/-- Takes one character, which has to be there. -/
def skip : Reader Unit :=
  modify (·.drop 1)

/-- Takes the characters of a text, each of which has to be there. -/
def expect : Text → Reader Unit
  | [] => return
  | c :: rest => do
      if (← next) == c then expect rest else fail .malformed

/-- Takes characters of a class as long as there are any. -/
def takeWhile (p : Char → Bool) : Reader Text := do
  let text ← get
  set (text.dropWhile p)
  return text.takeWhile p

/-- Whether a character is an ASCII digit. -/
def isDigit (c : Char) : Bool :=
  '0' ≤ c && c ≤ '9'

-----------------------------------------------------------------------------------------
-- Strings
-----------------------------------------------------------------------------------------

/-- The number of four hexadecimal digits. Fewer than four further bytes are an early end. -/
def hexQuad : Reader Nat := do
  let text ← get
  if text.size < 4 then fail .unfinished
  else
    set (text.drop 4)
    match Text.readNat? 16 (text.take 4) with
    | some code => return code
    | none => fail .malformed

/-- The character of a code unit, with its second half behind it if it is the first half of a
surrogate pair.
-/
def codeUnit : Reader Char := do
  let high ← hexQuad
  if high < 0xD800 || 0xDFFF < high then return Char.ofNat high
  else if 0xDC00 ≤ high then fail .malformed
  else
    expect ['\\', 'u']
    let low ← hexQuad
    if low < 0xDC00 || 0xDFFF < low then fail .malformed
    else return Char.ofNat (0x10000 + (high - 0xD800) * 0x400 + (low - 0xDC00))

/-- The character that a letter stands for behind a backslash. -/
def escaped? : Char → Option Char
  | '"' => some '"'
  | '\\' => some '\\'
  | '/' => some '/'
  | 'b' => some '\x08'
  | 'f' => some '\x0c'
  | 'n' => some '\n'
  | 'r' => some '\r'
  | 't' => some '\t'
  | _ => none

/-- The rest of a string behind its opening quote. -/
def characters : Nat → Reader Text
  | 0 => fail .unfinished
  | fuel + 1 => do
      let c ← next
      if c == '"' then return []
      else if c == '\\' then
        let letter ← next
        if letter == 'u' then
          let c ← codeUnit
          return c :: (← characters fuel)
        else
          match escaped? letter with
          | some c => return c :: (← characters fuel)
          | none => fail .malformed
      else if c < ' ' then fail .malformed
      else return c :: (← characters fuel)

/-- Skips the rest of a string. Code units need not be characters then. -/
def skipCharacters : Nat → Reader Unit
  | 0 => fail .unfinished
  | fuel + 1 => do
      let c ← next
      if c == '"' then return
      else if c == '\\' then
        let letter ← next
        if letter == 'u' then
          let _ ← hexQuad
          skipCharacters fuel
        else if (escaped? letter).isSome then skipCharacters fuel
        else fail .malformed
      else if c < ' ' then fail .malformed
      else skipCharacters fuel

/-- A string from its opening quote on. -/
def quoted : Reader String := do
  skip
  let text ← characters ((← get).length + 1)
  return String.ofList text

-----------------------------------------------------------------------------------------
-- Numbers
-----------------------------------------------------------------------------------------

/-- The parts of a written number. -/
structure Decimal where
  isNegative : Bool
  integer : Text
  fraction : Text := []
  exponent : Option Int := none

namespace Decimal

/-- The value of digits. -/
def digits (text : Text) : Nat :=
  (Text.readNat? 10 text).getD 0

/-- Whether a number is too large for a double, which holds less than 2^1024 - 2^970. -/
def isTooLarge (decimal : Decimal) : Bool :=
  let written := decimal.integer ++ decimal.fraction
  let significand := digits written
  let exponent := decimal.exponent.getD 0 - decimal.fraction.length
  let limit := Nat.pow 2 1024 - Nat.pow 2 970
  if significand = 0 then false
  else if exponent < 0 then
    if (written.length : Int) + exponent < 300 then false
    else limit * Nat.pow 10 exponent.natAbs ≤ significand
  else if 310 < exponent then true
  else limit ≤ significand * Nat.pow 10 exponent.natAbs

/-- The whole number that is written without a sign, a fraction and an exponent. -/
def natural? (decimal : Decimal) : Option Nat :=
  if decimal.isNegative || !decimal.fraction.isEmpty || decimal.exponent.isSome then none
  else
    let value := digits decimal.integer
    if value < naturalBound then some value else none

end Decimal

/-- The digits in front of the fraction: a single zero, or no zero first. -/
def integerDigits (atEnd : Fault) : Reader Text := do
  match ← next? with
  | none => fail atEnd
  | some first =>
      if first == '0' then
        if (← peek?).any isDigit then fail .malformed else return ['0']
      else if isDigit first then return first :: (← takeWhile isDigit)
      else fail .malformed

/-- Digits, at least one. -/
def someDigits (atEnd : Fault) : Reader Text := do
  let digits ← takeWhile isDigit
  if !digits.isEmpty then return digits
  else if (← peek?).isNone then fail atEnd
  else fail .malformed

/-- An exponent behind its letter. -/
def exponentDigits (atEnd : Fault) : Reader Int := do
  let isNegative := (← peek?) == some '-'
  if isNegative || (← peek?) == some '+' then skip
  let digits := Decimal.digits (← someDigits atEnd)
  return if isNegative then -digits else digits

/-- A number, with the fault that an end in the middle of it is. -/
def decimal (atEnd : Fault) : Reader Decimal := do
  let isNegative := (← peek?) == some '-'
  if isNegative then skip
  let integer ← integerDigits atEnd
  let mut fraction := []
  if (← peek?) == some '.' then
    skip
    fraction ← someDigits atEnd
  if (← peek?).any fun c => c == 'e' || c == 'E' then
    skip
    return { isNegative, integer, fraction, exponent := some (← exponentDigits atEnd) }
  else return { isNegative, integer, fraction }

/-- A number as a value. One that is too large is malformed. -/
def numeral : Reader Json := do
  let before ← get
  let decimal ← decimal .unfinished
  let after ← get
  match decimal.natural? with
  | some value => return .natural value
  | none =>
      if decimal.isTooLarge then fail .malformed
      else return .number (before.take (before.length - after.length))

/-- Skips a number of any size. -/
def skipNumeral : Reader Unit := do
  let _ ← decimal .malformed

-----------------------------------------------------------------------------------------
-- Values
-----------------------------------------------------------------------------------------

mutual
/-- Skips a value. -/
def skipValue : Nat → Reader Unit
  | 0 => fail .unfinished
  | fuel + 1 => do
      match ← peekPart? with
      | none => fail .unfinished
      | some 'n' => expect ['n', 'u', 'l', 'l']
      | some 't' => expect ['t', 'r', 'u', 'e']
      | some 'f' => expect ['f', 'a', 'l', 's', 'e']
      | some '"' => skip; skipCharacters ((← get).length + 1)
      | some '[' => skip; skipItems fuel true
      | some '\x7b' => skip; skipFields fuel true
      | some c => if c == '-' || isDigit c then skipNumeral else fail .malformed

/-- Skips the items of an array up to its end. -/
def skipItems : Nat → Bool → Reader Unit
  | 0, _ => fail .unfinished
  | fuel + 1, isFirst => do
      match ← peekPart? with
      | none => fail .unfinished
      | some ']' => skip
      | some c =>
          if isFirst then skipValue fuel
          else if c == ',' then skip; skipValue fuel
          else fail .malformed
          skipItems fuel false

/-- Skips the fields of an object up to its end. -/
def skipFields : Nat → Bool → Reader Unit
  | 0, _ => fail .unfinished
  | fuel + 1, isFirst => do
      match ← peekPart? with
      | none => fail .unfinished
      | some '\x7d' => skip
      | some c =>
          if !isFirst then
            if c == ',' then skip else fail .malformed
          match ← peekPart? with
          | none => fail .unfinished
          | some '"' => skip; skipCharacters ((← get).length + 1)
          | some _ => fail .malformed
          match ← peekPart? with
          | none => fail .unfinished
          | some ':' => skip
          | some _ => fail .malformed
          skipValue fuel
          skipFields fuel false
end

/-- Refuses a value of another kind than wanted, once it is known to be one. -/
def mismatch : Reader α := do
  match ← peekPart? with
  | some 'n' => expect ['n', 'u', 'l', 'l']; fail .mismatched
  | some 't' => expect ['t', 'r', 'u', 'e']; fail .mismatched
  | some 'f' => expect ['f', 'a', 'l', 's', 'e']; fail .mismatched
  | some '"' => let _ ← quoted; fail .mismatched
  | some '[' => fail .mismatched
  | some '\x7b' => fail .mismatched
  | some c =>
      if c == '-' || isDigit c then
        let _ ← numeral
        fail .mismatched
      else fail .malformed
  | none => fail .unfinished

/-- A string. -/
def string : Reader String := do
  if (← peekPart?) == some '"' then quoted else mismatch

/-- A truth value. -/
def bool : Reader Bool := do
  match ← peekPart? with
  | some 't' => expect ['t', 'r', 'u', 'e']; return true
  | some 'f' => expect ['f', 'a', 'l', 's', 'e']; return false
  | _ => mismatch

/-- A whole number below the bound. -/
def natural : Reader Nat := do
  match ← peekPart? with
  | some c =>
      if c == '-' || isDigit c then
        match ← numeral with
        | .natural value => return value
        | _ => fail .mismatched
      else mismatch
  | none => mismatch

/-- Nothing but blanks up to the end of the text. -/
def finish : Reader Unit := do
  if (← peekPart?).isSome then fail .malformed

/-- What a reader makes of a whole text. -/
def readAll (reader : Reader α) (text : Text) : Except Fault α :=
  (StateT.run (do let value ← reader; finish; return value) text).map (·.1)

end Reader

end TaggedText.Json
