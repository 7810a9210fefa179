/-!
Command line arguments. Options are long names with their values behind an equals sign or as the
next argument, no option comes twice, and everything behind a double hyphen is an input.
-/

namespace TaggedText.CommandLine

/-- What a run is asked to do. -/
structure Options where
  input : String
  config : Option String := none
  language : Option String := none
  withTags : Bool := false
  failFast : Bool := false
  verbose : Bool := false
  statsOut : Option String := none
deriving DecidableEq, Repr

/-- What the arguments ask for. -/
inductive Invocation where
  | run (options : Options)
  | showVersion
  | showHelp
  | invalid
deriving DecidableEq, Repr

/-- The arguments read so far. The input may still be missing. -/
structure Arguments where
  input : Option String := none
  config : Option String := none
  language : Option String := none
  withTags : Bool := false
  failFast : Bool := false
  verbose : Bool := false
  statsOut : Option String := none

namespace Arguments

/-- The arguments with an input, which is a path and must be the only one. -/
def setInput? (arguments : Arguments) (path : String) : Option Arguments :=
  if arguments.input.isSome || path == "" then none
  else some { arguments with input := some path }

/-- Whether an option takes a value. -/
def takesValue (name : String) : Bool :=
  name == "config" || name == "language" || name == "stats-out"

/-- The arguments with the value of an option. Paths must not be empty. -/
def setValue? (arguments : Arguments) (name value : String) : Option Arguments :=
  match name with
  | "config" =>
      if arguments.config.isSome || value == "" then none
      else some { arguments with config := some value }
  | "language" =>
      if arguments.language.isSome then none else some { arguments with language := some value }
  | "stats-out" =>
      if arguments.statsOut.isSome || value == "" then none
      else some { arguments with statsOut := some value }
  | _ => none

/-- The arguments with an option that takes no value. -/
def setFlag? (arguments : Arguments) (name : String) : Option Arguments :=
  match name with
  | "with-tags" => if arguments.withTags then none else some { arguments with withTags := true }
  | "fail-fast" => if arguments.failFast then none else some { arguments with failFast := true }
  | "verbose" => if arguments.verbose then none else some { arguments with verbose := true }
  | _ => none

/-- What complete arguments ask for. -/
def invocation (arguments : Arguments) : Invocation :=
  match arguments.input with
  | none => .invalid
  | some input =>
      .run {
        input
        config := arguments.config
        language := arguments.language
        withTags := arguments.withTags
        failFast := arguments.failFast
        verbose := arguments.verbose
        statsOut := arguments.statsOut
      }

/-- The arguments with further inputs. -/
def setInputs (arguments : Arguments) : List String → Invocation
  | [] => arguments.invocation
  | path :: rest =>
      match arguments.setInput? path with
      | some arguments => setInputs arguments rest
      | none => .invalid

/-- Whether an argument can be the value of the option before it. -/
def isValue (argument : String) : Bool :=
  argument == "-" || argument.toList.head? != some '-'

/-- A long option as its name and the value behind its equals sign. -/
def splitOption (characters : List Char) : String × Option String :=
  let name := String.ofList (characters.takeWhile (· != '='))
  match characters.dropWhile (· != '=') with
  | [] => (name, none)
  | _ :: value => (name, some (String.ofList value))

/-- Reads arguments in order behind those read so far. -/
def read (arguments : Arguments) : List String → Invocation
  | [] => arguments.invocation
  | argument :: rest =>
      match argument.toList with
      | ['-', '-'] => arguments.setInputs rest
      | '-' :: '-' :: characters =>
          match splitOption characters with
          | ("help", none) => .showHelp
          | ("version", none) => .showVersion
          | (name, some value) =>
              match arguments.setValue? name value with
              | some arguments => read arguments rest
              | none => .invalid
          | (name, none) =>
              if takesValue name then
                match rest with
                | value :: rest =>
                    if !isValue value then .invalid
                    else
                      match arguments.setValue? name value with
                      | some arguments => read arguments rest
                      | none => .invalid
                | [] => .invalid
              else
                match arguments.setFlag? name with
                | some arguments => read arguments rest
                | none => .invalid
      | '-' :: 'h' :: _ => .showHelp
      | '-' :: 'V' :: _ => .showVersion
      | '-' :: _ :: _ => .invalid
      | _ =>
          match arguments.setInput? argument with
          | some arguments => read arguments rest
          | none => .invalid

end Arguments

/-- What the arguments of a command line ask for. -/
def Invocation.ofArguments (arguments : List String) : Invocation :=
  Arguments.read {} arguments

/-- The answer to a question for the version. -/
def versionText : String :=
  "textprep 0.1.0\n"

/-- The answer to a question for help. -/
def helpText : String :=
  "Tokenize lines of lightly marked-up text into words and tags, one JSON record per line\n\n"
  ++ "Usage: textprep [OPTIONS] <INPUT>\n\n"
  ++ "Arguments:\n"
  ++ "  <INPUT>  Input file, or - for stdin\n\n"
  ++ "Options:\n"
  ++ "      --config <CONFIG>        JSON config file\n"
  ++ "      --language <LANGUAGE>    Language code for spacing rules (overrides the config file)\n"
  ++ "      --with-tags              Keep tags in the re-assembled text\n"
  ++ "      --fail-fast              Abort on the first unreadable or unprocessable line\n"
  ++ "      --verbose                Debug-level logging\n"
  ++ "      --stats-out <STATS_OUT>  Stats output file path\n"
  ++ "  -h, --help                   Print help\n"
  ++ "  -V, --version                Print version\n"

end TaggedText.CommandLine
