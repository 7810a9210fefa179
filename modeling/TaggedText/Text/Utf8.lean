import TaggedText.Text.Basic

/-!
Texts as UTF-8 bytes. Bytes that are no text are rejected at the first sequence that no text
contains, which is either cut short by the end or goes wrong at its first, second, third or
fourth byte.
-/

namespace TaggedText

/-- Bytes, first one first. -/
abbrev Bytes := List UInt8

namespace Text

/-- The bytes of a text. -/
def encode (text : Text) : Bytes :=
  text.flatMap String.utf8EncodeChar

/-- Where bytes are no text: the place, and the number of bytes at fault. None are if the bytes
end within a sequence that could still be completed.
-/
structure EncodingFault where
  index : Nat
  length : Option Nat
deriving DecidableEq, Repr

namespace EncodingFault

/-- The wording of a fault. -/
def message (fault : EncodingFault) : String :=
  match fault.length with
  | some length => s!"invalid utf-8 sequence of {length} bytes from index {fault.index}"
  | none => s!"incomplete utf-8 byte sequence from index {fault.index}"

end EncodingFault

/-- Whether a byte goes on with a sequence. -/
def isContinuation (byte : UInt8) : Bool :=
  0x80 ≤ byte && byte ≤ 0xBF

/-- Whether a byte can be the second one behind a first byte. This rules out sequences that are
longer than needed, surrogates, and code points that are too large.
-/
def isSecond (first second : UInt8) : Bool :=
  if first = 0xE0 then 0xA0 ≤ second && second ≤ 0xBF
  else if first = 0xED then 0x80 ≤ second && second ≤ 0x9F
  else if first = 0xF0 then 0x90 ≤ second && second ≤ 0xBF
  else if first = 0xF4 then 0x80 ≤ second && second ≤ 0x8F
  else isContinuation second

/-- A sequence that has begun: the index and value of its first byte, how many bytes it has and
lacks, and the bits of the code point so far.
-/
structure OpenSequence where
  index : Nat
  first : UInt8
  taken : Nat
  missing : Nat
  code : Nat

namespace OpenSequence

/-- The sequence that a byte begins, unless it is a character by itself or begins none. -/
def begin? (index : Nat) (first : UInt8) : Option OpenSequence :=
  if 0xC2 ≤ first && first ≤ 0xDF then some ⟨index, first, 1, 1, first.toNat - 0xC0⟩
  else if 0xE0 ≤ first && first ≤ 0xEF then some ⟨index, first, 1, 2, first.toNat - 0xE0⟩
  else if 0xF0 ≤ first && first ≤ 0xF4 then some ⟨index, first, 1, 3, first.toNat - 0xF0⟩
  else none

/-- Whether a byte goes on with the sequence. -/
def accepts (sequence : OpenSequence) (byte : UInt8) : Bool :=
  if sequence.taken = 1 then isSecond sequence.first byte else isContinuation byte

/-- The sequence with one more byte. -/
def push (sequence : OpenSequence) (byte : UInt8) : OpenSequence :=
  { sequence with
    taken := sequence.taken + 1
    missing := sequence.missing - 1
    code := sequence.code * 64 + (byte.toNat - 0x80) }

end OpenSequence

/-- The text of bytes from an index on, with the sequence that is open there. -/
def decodeFrom (index : Nat) : Option OpenSequence → Bytes → Except EncodingFault Text
  | none, [] => .ok []
  | some sequence, [] => .error ⟨sequence.index, none⟩
  | none, byte :: rest =>
      if byte < 0x80 then
        (decodeFrom (index + 1) none rest).map (Char.ofNat byte.toNat :: ·)
      else
        match OpenSequence.begin? index byte with
        | none => .error ⟨index, some 1⟩
        | some sequence => decodeFrom (index + 1) (some sequence) rest
  | some sequence, byte :: rest =>
      if !sequence.accepts byte then .error ⟨sequence.index, some sequence.taken⟩
      else
        let sequence := sequence.push byte
        if sequence.missing = 0 then
          (decodeFrom (index + 1) none rest).map (Char.ofNat sequence.code :: ·)
        else decodeFrom (index + 1) (some sequence) rest

/-- The text of bytes. -/
def decode (bytes : Bytes) : Except EncodingFault Text :=
  decodeFrom 0 none bytes

end Text

end TaggedText
