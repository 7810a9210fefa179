import TaggedText.Text.Basic

/-!
Numbers written with the ASCII digits of a base up to sixteen, and the characters they name.
-/

namespace TaggedText.Text

/-- The value of an ASCII digit or hexadecimal letter. -/
def digitValue? (c : Char) : Option Nat :=
  if '0' ≤ c && c ≤ '9' then some (c.toNat - '0'.toNat)
  else if 'a' ≤ c && c ≤ 'f' then some (c.toNat - 'a'.toNat + 10)
  else if 'A' ≤ c && c ≤ 'F' then some (c.toNat - 'A'.toNat + 10)
  else none

/-- Reads further digits of a base behind those already read. -/
def readDigits? (base : Nat) : Nat → Text → Option Nat
  | value, [] => some value
  | value, c :: rest =>
      match digitValue? c with
      | some digit => if digit < base then readDigits? base (value * base + digit) rest else none
      | none => none

/-- The number that a non-empty text of digits of a base stands for. -/
def readNat? (base : Nat) (text : Text) : Option Nat :=
  if text.isEmpty then none else readDigits? base 0 text

/-- The digits of a number in lower case, without leading zeros. -/
def hexDigits (n : Nat) : Text :=
  Nat.toDigits 16 n

/-- The character with a code point, unless that is a surrogate or too large. -/
def scalar? (code : Nat) : Option Char :=
  if code.isValidChar then some (Char.ofNat code) else none

end TaggedText.Text
