import TaggedText.Json.Reader

/-!
Reading whole JSON values.
-/

namespace TaggedText.Json.Reader

mutual
/-- A value of any kind. -/
def value : Nat → Reader Json
  | 0 => fail .unfinished
  | fuel + 1 => do
      match ← peekPart? with
      | none => fail .unfinished
      | some 'n' => expect ['n', 'u', 'l', 'l']; return .null
      | some 't' => expect ['t', 'r', 'u', 'e']; return .bool true
      | some 'f' => expect ['f', 'a', 'l', 's', 'e']; return .bool false
      | some '"' => return .string (← quoted)
      | some '[' => skip; return .array (← items fuel true)
      | some '\x7b' => skip; return .object (← fields fuel true)
      | some c => if c == '-' || isDigit c then numeral else fail .malformed

/-- The items of an array up to its end. -/
def items : Nat → Bool → Reader (List Json)
  | 0, _ => fail .unfinished
  | fuel + 1, isFirst => do
      match ← peekPart? with
      | none => fail .unfinished
      | some ']' => skip; return []
      | some c =>
          if !isFirst then
            if c == ',' then skip else fail .malformed
          let item ← value fuel
          return item :: (← items fuel false)

/-- The fields of an object up to its end. -/
def fields : Nat → Bool → Reader (List (String × Json))
  | 0, _ => fail .unfinished
  | fuel + 1, isFirst => do
      match ← peekPart? with
      | none => fail .unfinished
      | some '\x7d' => skip; return []
      | some c =>
          if !isFirst then
            if c == ',' then skip else fail .malformed
          match ← peekPart? with
          | none => fail .unfinished
          | some '"' =>
              let name ← quoted
              match ← peekPart? with
              | none => fail .unfinished
              | some ':' =>
                  skip
                  let item ← value fuel
                  return (name, item) :: (← fields fuel false)
              | some _ => fail .malformed
          | some _ => fail .malformed
end

end TaggedText.Json.Reader

namespace TaggedText.Json

/-- The value that a text writes down. -/
def parse (text : Text) : Except Fault Json :=
  Reader.readAll (Reader.value (2 * text.length + 2)) text

end TaggedText.Json
