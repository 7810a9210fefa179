import TaggedText.Json.Printer

/-!
The indented written form of JSON values, for people to read. Every item and every field has a
line of its own, which two spaces indent for each value around it.
-/

namespace TaggedText.Json

/-- The start of a line inside a number of values. -/
def lineStart (depth : Nat) : Text :=
  '\n' :: List.replicate (2 * depth) ' '

mutual
/-- The indented form of a value inside a number of others. -/
def indented (depth : Nat) : Json → Text
  | array (item :: rest) =>
      '[' :: lineStart (depth + 1) ++ indented (depth + 1) item ++ indentedItems depth rest
  | object ((name, value) :: rest) =>
      '\x7b' :: lineStart (depth + 1) ++ quote name.toList ++ [':', ' ']
        ++ indented (depth + 1) value ++ indentedFields depth rest
  | value => value.render

/-- Further items of an array with its closing bracket. -/
def indentedItems (depth : Nat) : List Json → Text
  | [] => lineStart depth ++ [']']
  | item :: rest =>
      ',' :: lineStart (depth + 1) ++ indented (depth + 1) item ++ indentedItems depth rest

/-- Further fields of an object with its closing brace. -/
def indentedFields (depth : Nat) : List (String × Json) → Text
  | [] => lineStart depth ++ ['\x7d']
  | (name, value) :: rest =>
      ',' :: lineStart (depth + 1) ++ quote name.toList ++ [':', ' ']
        ++ indented (depth + 1) value ++ indentedFields depth rest
end

end TaggedText.Json
