import TaggedText.CommandLine.Run
import TaggedText.Json.Indented

/-!
What an invocation of the program leaves behind: its exit code, what it prints, and the file of
statistics that a run which ends well writes if it is asked to.
-/

namespace TaggedText.CommandLine

/-- A file of statistics that is to be written. -/
structure StatsFile where
  path : String
  stats : RunStats

namespace StatsFile

/-- What is written to the file of a run that took some milliseconds. -/
def content (file : StatsFile) (milliseconds : Nat) : Text :=
  (file.stats.toJson.withField "duration_ms" (.natural milliseconds)).indented 0

end StatsFile

/-- What an invocation leaves behind. -/
structure Report where
  exitCode : Nat
  output : Text := []
  complaint : Option String := none
  statsFile : Option StatsFile := none

namespace Report

/-- The report of a run: failures exit with 1. -/
def ofOutcome (options : Options) (outcome : Outcome) : Report :=
  match outcome.result with
  | .error error =>
      { exitCode := 1, output := outcome.output, complaint := some error.message }
  | .ok stats =>
      { exitCode := 0
        output := outcome.output
        statsFile := options.statsOut.map (⟨·, stats⟩) }

/-- The report of an invocation: wrong arguments exit with 2. -/
def ofInvocation (environment : Environment) : Invocation → Report
  | .run options => ofOutcome options (run options environment)
  | .showVersion => { exitCode := 0, output := versionText.toList }
  | .showHelp => { exitCode := 0, output := helpText.toList }
  | .invalid => { exitCode := 2, complaint := some "invalid arguments" }

/-- The report when its file of statistics cannot be written, if there is one. -/
def withoutStats (report : Report) : Report :=
  match report.statsFile with
  | none => report
  | some file =>
      { exitCode := 1
        output := report.output
        complaint := some s!"Failed to write stats to {file.path}" }

end Report

end TaggedText.CommandLine
