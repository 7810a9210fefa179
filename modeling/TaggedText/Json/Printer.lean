import TaggedText.Json.Basic
import TaggedText.Text.Radix

/-!
The compact written form of JSON values. Strings escape quotes, backslashes and the controls
below the space, and nothing else.
-/

namespace TaggedText.Json

/-- A character inside a quoted string. -/
def escape (c : Char) : Text :=
  match c with
  | '"' => ['\\', '"']
  | '\\' => ['\\', '\\']
  | '\x08' => ['\\', 'b']
  | '\x0c' => ['\\', 'f']
  | '\n' => ['\\', 'n']
  | '\r' => ['\\', 'r']
  | '\t' => ['\\', 't']
  | _ =>
      if c < ' ' then
        let digits := Text.hexDigits c.toNat
        ['\\', 'u'] ++ List.replicate (4 - digits.length) '0' ++ digits
      else [c]

/-- A text in quotes. -/
def quote (text : Text) : Text :=
  '"' :: text.flatMap escape ++ ['"']

mutual
/-- The written form of a value. -/
def render : Json → Text
  | null => "null".toList
  | bool true => "true".toList
  | bool false => "false".toList
  | natural value => Nat.toDigits 10 value
  | number written => written
  | string value => quote value.toList
  | array items => '[' :: renderItems items
  | object fields => '\x7b' :: renderFields fields

/-- The items of an array with its closing bracket. -/
def renderItems : List Json → Text
  | [] => [']']
  | item :: rest => render item ++ renderMoreItems rest

/-- Further items of an array with its closing bracket. -/
def renderMoreItems : List Json → Text
  | [] => [']']
  | item :: rest => ',' :: render item ++ renderMoreItems rest

/-- The fields of an object with its closing brace. -/
def renderFields : List (String × Json) → Text
  | [] => ['\x7d']
  | (name, value) :: rest => quote name.toList ++ ':' :: render value ++ renderMoreFields rest

/-- Further fields of an object with its closing brace. -/
def renderMoreFields : List (String × Json) → Text
  | [] => ['\x7d']
  | (name, value) :: rest =>
      ',' :: quote name.toList ++ ':' :: render value ++ renderMoreFields rest
end

end TaggedText.Json
