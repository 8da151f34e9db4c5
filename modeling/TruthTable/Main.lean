import TruthTable.Command.Batch

/-!
# The command

Reads the arguments, and the input where it is needed, and shows the report.
-/

namespace TruthTable.Command

/-- Shows a report and answers its exit code. -/
def display (report : Report) : IO UInt32 := do
  (← IO.getStdout).putStr report.stdout
  (← IO.getStderr).putStr report.stderr
  match report.failure? with
  | some failure => (← IO.getStderr).putStrLn ("Error: " ++ failure)
  | none => pure ()
  if report.exitCode = panicCode then
    (← IO.getStderr).putStrLn "The application panicked (crashed)."
  return report.exitCode

/-- Does what the arguments ask for. -/
def serve (arguments : List String) : IO UInt32 := do
  match Request.ofArguments arguments with
  | .error error =>
    (← IO.getStderr).putStrLn error.message
    return usageErrorCode
  | .ok request =>
    let input ← if request.needsInput then (← IO.getStdin).readToEnd else pure ""
    display (request.report input)

end TruthTable.Command

/-- The command. -/
def main (arguments : List String) : IO UInt32 := TruthTable.Command.serve arguments
