import VectorQuery.Program

/-!
# Running the program

The host of a process, which reads files, standard input and the environment,
and the report of what came of a run.
-/

namespace VectorQuery

namespace Host

/-- The text of a file, if it can be read. -/
def readFile? (name : String) : IO (Option String) :=
  try some <$> IO.FS.readFile name catch _ => return none

/-- The whole of standard input, if it can be read. -/
def readInput? : IO (Option String) :=
  try some <$> (← IO.getStdin).readToEnd catch _ => return none

/-- The host of the running process, with the environment as it is now. -/
def ofProcess : IO (Host IO) := do
  let bindings ← Settings.variableNames.filterMapM fun name ↦ do
    return (← IO.getEnv name).map (name, ·)
  return ⟨readFile?, readInput?, (List.lookup · bindings)⟩

end Host

/-- Prints what came of a run: results on standard output, failures with their
cause on standard error. -/
def Outcome.report (outcome : Outcome) : IO Unit := do
  IO.print outcome.output
  match outcome with
  | .printed _ => pure ()
  | .refused => IO.eprint Program.usageText
  | .failed f =>
      IO.eprintln ("Error: " ++ f.context)
      if let some cause := f.cause? then
        IO.eprintln ("\nCaused by:\n    " ++ cause)

end VectorQuery

def main (args : List String) : IO UInt32 := do
  let outcome ← VectorQuery.Program.run (← VectorQuery.Host.ofProcess) args
  outcome.report
  return UInt32.ofNat outcome.exitCode
