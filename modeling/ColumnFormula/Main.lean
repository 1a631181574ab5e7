import ColumnFormula.CommandLine

/-!
# The program

Reads the arguments and the file of the equation, and prints the report of the run.
-/

def ColumnFormula.CommandLine.Options.contents? (options : Options) : IO (Option String) :=
  if options.file then
    try some <$> IO.FS.readFile options.equation catch _ => pure none
  else pure none

def main (arguments : List String) : IO UInt32 := do
  match ColumnFormula.CommandLine.parse { equation := "" } none arguments with
  | none =>
    (← IO.getStderr).putStr ColumnFormula.CommandLine.usage
    return 2
  | some options =>
    let report := options.run (← options.contents?)
    (← IO.getStdout).putStr report.output
    (← IO.getStderr).putStr report.errors
    return report.code
