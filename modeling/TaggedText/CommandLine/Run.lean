import TaggedText.CommandLine.Options
import TaggedText.Conversion.ConfigFile
import TaggedText.Conversion.Converter
import TaggedText.Json.Printer
import TaggedText.Lines
import TaggedText.Sentence.Codec

/-!
Runs of the command line. A run reads the lines of its input, turns each into a sentence, and
writes one JSON record for each, with statistics of the whole in the end. The outer layer gives
it the bytes of its files and does the writing.
-/

namespace TaggedText.CommandLine

/-- What a run can read. -/
structure Environment where
  file : String → File
  stdin : Bytes := []

/-- Why a run fails. -/
inductive RunError where
  | config (error : Config.FileError)
  | missingInput (path : String)
  | unreadableLine (message : String)
  | unprocessableLine (line : Nat) (error : DraftError)
deriving DecidableEq, Repr

namespace RunError

/-- The wording of an error. -/
def message : RunError → String
  | config error => error.message
  | missingInput path => InputSource.missingMessage path
  | unreadableLine message => message
  | unprocessableLine line error => s!"Failed to process line {line}: {error.message}"

end RunError

/-- The statistics of a run. -/
structure RunStats where
  source : String
  language : String
  linesRead : Nat := 0
  sentences : Nat := 0
  words : Nat := 0
  tags : Nat := 0
  failures : Nat := 0
  readError : Option String := none
deriving DecidableEq, Repr

namespace RunStats

/-- The statistics with one more sentence. -/
def addSentence (stats : RunStats) (sentence : Sentence) : RunStats :=
  { stats with
    sentences := stats.sentences + 1
    words := stats.words + sentence.words.length
    tags := stats.tags + sentence.tags.length }

/-- The statistics with one more line that gave no sentence. -/
def addFailure (stats : RunStats) : RunStats :=
  { stats with failures := stats.failures + 1 }

/-- Statistics as JSON. -/
def toJson (stats : RunStats) : Json :=
  .object [
    ("source", .string stats.source),
    ("language", .string stats.language),
    ("lines_read", .natural stats.linesRead),
    ("sentences", .natural stats.sentences),
    ("words", .natural stats.words),
    ("tags", .natural stats.tags),
    ("failures", .natural stats.failures),
    ("read_error", .ofOption .string stats.readError)
  ]

end RunStats

/-- What a run writes before it ends, and its statistics or why it fails. -/
structure Outcome where
  output : Text := []
  result : Except RunError RunStats

/-- The record of a sentence. -/
def record (line : Nat) (withTags : Bool) (sentence : Sentence) : Json :=
  .object [
    ("line", .natural line),
    ("text", .ofText (sentence.toText withTags)),
    ("sentence", sentence.toJson)
  ]

/-- Processes lines behind a number of others. -/
def processLines (options : Options) (converter : Converter) (linesBefore : Nat)
    (stats : RunStats)
    : List Text → Outcome
  | [] => { result := .ok stats }
  | line :: rest =>
      let number := linesBefore + 1
      match converter.process line with
      | (.ok sentence, converter) =>
          let outcome :=
            processLines options converter number (stats.addSentence sentence) rest
          let written := (record number options.withTags sentence).render
          { outcome with output := written ++ '\n' :: outcome.output }
      | (.error error, converter) =>
          if options.failFast then { result := .error (.unprocessableLine number error) }
          else processLines options converter number stats.addFailure rest

/-- The configuration that options ask for. -/
def loadConfig (options : Options) (environment : Environment) : Except RunError Config := do
  let config ←
    match options.config with
    | none => pure {}
    | some path => (Config.ofFile path (environment.file path).content?).mapError .config
  return { config with language := options.language.getD config.language }

/-- The lines of the input that options name. -/
def loadLines (options : Options) (environment : Environment)
    : Except RunError (List Text × ReadStats) :=
  let source := InputSource.ofArgument options.input
  match source with
  | .stdin =>
      (Lines.read source.label options.failFast environment.stdin).mapError .unreadableLine
  | .file path =>
      match Lines.ofFile? source.label options.failFast (environment.file path) with
      | none => .error (.missingInput path)
      | some result => result.mapError .unreadableLine

/-- A run with some options. -/
def run (options : Options) (environment : Environment) : Outcome :=
  match loadConfig options environment with
  | .error error => { result := .error error }
  | .ok config =>
      match loadLines options environment with
      | .error error => { result := .error error }
      | .ok (lines, readStats) =>
          let stats : RunStats := {
            source := readStats.source
            language := config.language
            linesRead := readStats.linesRead
            readError := readStats.readError
          }
          processLines options (.ofConfig config) 0 stats lines

end TaggedText.CommandLine
