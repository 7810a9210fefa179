import TaggedText.CommandLine.Report

/-!
The command line program: reads the files that an invocation needs, and writes what its report
says.
-/

namespace TaggedText.CommandLine

/-- What stands at a path. -/
def fileAt (path : String) : IO File := do
  try
    return .regular (← IO.FS.readBinFile path).toList
  catch error =>
    match error with
    | .inappropriateType .. => return .directory
    | _ => return .missing

/-- What an invocation can read. -/
def gather : Invocation → IO Environment
  | .run options => do
      let config ← options.config.toList.mapM fun path => do return (path, ← fileAt path)
      let source := InputSource.ofArgument options.input
      let input ← if source == .stdin then pure .missing else fileAt options.input
      let files := config ++ [(options.input, input)]
      let stdin ← if source == .stdin then (← IO.getStdin).readBinToEnd else pure .empty
      return { file := fun path => (files.lookup path).getD .missing, stdin := stdin.toList }
  | _ => return { file := fun _ => .missing }

/-- Writes the file of statistics of a report, if there is one, and gives the report that holds
then.
-/
def writeStats (report : Report) (milliseconds : Nat) : IO Report := do
  match report.statsFile with
  | none => return report
  | some file =>
      try
        IO.FS.writeFile file.path (String.ofList (file.content milliseconds))
        return report
      catch _ =>
        return report.withoutStats

end TaggedText.CommandLine

open TaggedText.CommandLine in
/-- Does what the arguments ask for. -/
def main (arguments : List String) : IO UInt32 := do
  let started ← IO.monoMsNow
  let invocation := Invocation.ofArguments arguments
  let report := Report.ofInvocation (← gather invocation) invocation
  let stdout ← IO.getStdout
  stdout.putStr (String.ofList report.output)
  stdout.flush
  let report ← writeStats report ((← IO.monoMsNow) - started)
  for complaint in report.complaint do
    IO.eprintln s!"Error: {complaint}"
  return report.exitCode.toUInt32
