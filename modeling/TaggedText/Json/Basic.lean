import TaggedText.Text.Basic

/-!
JSON values. Whole numbers that fit into 64 bits are told apart from all other numbers, which
are kept as they are written. Objects keep their fields in order.
-/

namespace TaggedText

/-- A JSON value. -/
inductive Json where
  | null
  | bool (value : Bool)
  | natural (value : Nat)
  | number (written : Text)
  | string (value : String)
  | array (items : List Json)
  | object (fields : List (String × Json))

namespace Json

/-- The bound below which whole numbers are told apart. -/
def naturalBound : Nat :=
  Nat.pow 2 64

/-- A text as a value. -/
def ofText (text : Text) : Json :=
  string (String.ofList text)

/-- A value or null. -/
def ofOption (encode : α → Json) : Option α → Json
  | none => null
  | some value => encode value

/-- The last field of a name. -/
def find? (fields : List (String × Json)) (name : String) : Option Json :=
  match fields with
  | [] => none
  | (key, value) :: rest => (find? rest name).or (if key = name then some value else none)

/-- The field of a name in an object. -/
def field? (name : String) : Json → Option Json
  | object fields => find? fields name
  | _ => none

/-- An object with one more field behind its others. -/
def withField (json : Json) (name : String) (value : Json) : Json :=
  match json with
  | object fields => object (fields ++ [(name, value)])
  | _ => json

/-- The string that a value is. -/
def string? : Json → Option String
  | string value => some value
  | _ => none

/-- The truth value that a value is. -/
def bool? : Json → Option Bool
  | bool value => some value
  | _ => none

/-- The whole number that a value is. -/
def natural? : Json → Option Nat
  | natural value => some value
  | _ => none

/-- The items of the array that a value is. -/
def array? : Json → Option (List Json)
  | array items => some items
  | _ => none

end Json

end TaggedText
