import TaggedText.File

/-!
Reading lines from bytes. A line ends with a line feed or with the bytes, and a carriage return
in front of its line feed belongs to the end too. Reading stops at the first line that cannot be
read, which either spoils everything or leaves the lines before it.
-/

namespace TaggedText

/-- What was read of a source. -/
structure ReadStats where
  source : String
  linesRead : Nat := 0
  bytesRead : Nat := 0
  readError : Option String := none
deriving DecidableEq, Repr

/-- What was read when one more line is read, which counts one byte for its end. -/
def ReadStats.addLine (stats : ReadStats) (line : Text) : ReadStats :=
  { stats with
    linesRead := stats.linesRead + 1
    bytesRead := stats.bytesRead + (line.size + 1) }

/-- Why a line cannot be read. -/
inductive ReadFault where
  | encoding (fault : Text.EncodingFault)
  | isDirectory
deriving DecidableEq, Repr

namespace ReadFault

/-- The wording of a fault. -/
def message : ReadFault → String
  | encoding fault => fault.message
  | isDirectory => "Is a directory (os error 21)"

end ReadFault

namespace Lines

/-- The byte that ends a line. -/
def lineFeed : UInt8 :=
  10

/-- The byte that can stand in front of a line feed. -/
def carriageReturn : UInt8 :=
  13

/-- The bytes cut behind every line feed, without an empty rest. -/
def pieces : Bytes → List Bytes
  | [] => []
  | byte :: rest =>
      if byte = lineFeed then [byte] :: pieces rest
      else
        match pieces rest with
        | [] => [[byte]]
        | piece :: more => (byte :: piece) :: more

/-- A piece without its line feed and the carriage return in front of that. -/
def stripEnd (piece : Bytes) : Bytes :=
  if piece.getLast? == some lineFeed then
    let line := piece.dropLast
    if line.getLast? == some carriageReturn then line.dropLast else line
  else piece

/-- The wording of a fault in the line behind some others. -/
def errorMessage (source : String) (linesBefore : Nat) (fault : ReadFault) : String :=
  s!"Read error in {source} at line {linesBefore + 1}: {fault.message}"

/-- What reading comes to at a fault behind the lines that it has counted: an error if it has to fail
fast, else its end.
-/
def stop (failFast : Bool) (stats : ReadStats) (fault : ReadFault) : Except String ReadStats :=
  let message := errorMessage stats.source stats.linesRead fault
  if failFast then .error message else .ok { stats with readError := some message }

/-- Reads pieces on behind the lines that have been counted, and counts on. -/
def readOn (failFast : Bool) (stats : ReadStats) : List Bytes → Except String (List Text × ReadStats)
  | [] => .ok ([], stats)
  | piece :: rest =>
      match Text.decode (stripEnd piece) with
      | .error fault => (stop failFast stats (.encoding fault)).map ([], ·)
      | .ok line =>
          (readOn failFast (stats.addLine line) rest).map fun (lines, stats) =>
            (line :: lines, stats)

/-- Reads the lines of bytes. -/
def read (source : String) (failFast : Bool) (bytes : Bytes)
    : Except String (List Text × ReadStats) :=
  readOn failFast { source } (pieces bytes)

/-- Reads the lines of a file, unless there is none. A directory fails at its first line. -/
def ofFile? (source : String) (failFast : Bool)
    : File → Option (Except String (List Text × ReadStats))
  | .missing => none
  | .directory => some ((stop failFast { source } .isDirectory).map ([], ·))
  | .regular bytes => some (read source failFast bytes)

end Lines

/-- Where lines come from. -/
inductive InputSource where
  | stdin
  | file (path : String)
deriving DecidableEq, Repr

namespace InputSource

/-- The source that an argument names: standard input by a hyphen, which slashes and single dots
may follow, and a file by anything else.
-/
def ofArgument (argument : String) : InputSource :=
  match argument.splitOn "/" with
  | "-" :: rest =>
      if rest.all fun part => part == "" || part == "." then stdin else file argument
  | _ => file argument

/-- How a source is called in messages. -/
def label : InputSource → String
  | stdin => "<stdin>"
  | file path => path

/-- The wording when there is no file at a path. -/
def missingMessage (path : String) : String :=
  s!"Failed to open input file {path}"

end InputSource

end TaggedText
