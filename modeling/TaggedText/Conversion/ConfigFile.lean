import TaggedText.Conversion.Config
import TaggedText.Json.Reader
import TaggedText.Text.Utf8

/-!
Configuration files. A file holds a JSON object with some fields of a configuration in any
order, or an array with the first few of them in their order; all others keep their defaults.
Reading goes from left to right and stops at the first fault.
-/

namespace TaggedText

namespace Config

/-- The fields of a configuration in their order. -/
inductive Field where
  | language
  | markup
  | entities
  | blanks
  | words
  | poolLimit
deriving DecidableEq, Repr

namespace Field

/-- All fields in their order. -/
def all : List Field :=
  [language, markup, entities, blanks, words, poolLimit]

/-- The name of a field. -/
def key : Field → String
  | language => "language"
  | markup => "xml_tags"
  | entities => "unescape_entities"
  | blanks => "normalize_whitespace"
  | words => "tokenize"
  | poolLimit => "pool_size"

/-- The field of a name. -/
def ofKey? (name : String) : Option Field :=
  all.find? (·.key == name)

/-- The value of a field as JSON. -/
def toJson (config : Config) : Field → Json
  | language => .string config.language
  | markup => .bool config.markup
  | entities => .bool config.entities
  | blanks => .bool config.blanks
  | words => .bool config.words
  | poolLimit => .natural config.poolLimit

/-- Reads the value of a field into a configuration. -/
def read (config : Config) : Field → Json.Reader Config
  | language => return { config with language := ← Json.Reader.string }
  | markup => return { config with markup := ← Json.Reader.bool }
  | entities => return { config with entities := ← Json.Reader.bool }
  | blanks => return { config with blanks := ← Json.Reader.bool }
  | words => return { config with words := ← Json.Reader.bool }
  | poolLimit => return { config with poolLimit := ← Json.Reader.natural }

end Field

/-- A configuration as JSON. -/
def toJson (config : Config) : Json :=
  .object (Field.all.map fun field => (field.key, field.toJson config))

open Json.Reader in
/-- Reads the fields of an object into a configuration. None of those seen before may come again,
and fields of other names are skipped.
-/
def readFields : Nat → Bool → List Field → Config → Json.Reader Config
  | 0, _, _, _ => fail .unfinished
  | fuel + 1, isFirst, seen, config => do
      match ← peekPart? with
      | none => fail .unfinished
      | some '\x7d' => skip; return config
      | some c =>
          if !isFirst then
            if c == ',' then skip else fail .malformed
          match ← peekPart? with
          | none => fail .unfinished
          | some '"' =>
              let field := Field.ofKey? (← quoted)
              if field.any seen.contains then fail .mismatched
              match ← peekPart? with
              | none => fail .unfinished
              | some ':' =>
                  skip
                  match field with
                  | some field =>
                      readFields fuel false (field :: seen) (← field.read config)
                  | none =>
                      skipValue (2 * (← get).length + 2)
                      readFields fuel false seen config
              | some _ => fail .malformed
          | some _ => fail .malformed

open Json.Reader in
/-- Reads the items of an array into the given fields of a configuration, as far as it goes. -/
def readItems : List Field → Bool → Config → Json.Reader Config
  | [], _, config => do
      match ← peekPart? with
      | none => fail .unfinished
      | some ']' => skip; return config
      | some _ => fail .malformed
  | field :: rest, isFirst, config => do
      match ← peekPart? with
      | none => fail .unfinished
      | some ']' => skip; return config
      | some c =>
          if !isFirst then
            if c == ',' then skip else fail .malformed
          match ← peekPart? with
          | none => fail .unfinished
          | some ']' => fail .malformed
          | some _ => readItems rest false (← field.read config)

open Json.Reader in
/-- Reads a configuration. -/
def reader : Json.Reader Config := do
  match ← peekPart? with
  | none => fail .unfinished
  | some '[' => skip; readItems Field.all true {}
  | some '\x7b' => skip; readFields ((← get).length + 1) true [] {}
  | some _ => mismatch

/-- The configuration that a text describes. -/
def parse (text : Text) : Except Json.Fault Config :=
  Json.Reader.readAll reader text

/-- Why a configuration file cannot be used. -/
inductive FileError where
  | unreadable (path : String)
  | unusable (path : String) (fault : Json.Fault)
deriving DecidableEq, Repr

namespace FileError

/-- The wording of an error. -/
def message : FileError → String
  | unreadable path => s!"Failed to read config file {path}"
  | unusable path _ => s!"Failed to parse config file {path}"

end FileError

/-- The configuration in the file at a path, whose bytes are given if there is one. -/
def ofFile (path : String) (content : Option Bytes) : Except FileError Config :=
  match content.map Text.decode with
  | some (.ok text) => (parse text).mapError (.unusable path)
  | _ => .error (.unreadable path)

end Config

end TaggedText
